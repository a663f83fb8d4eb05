/-
The order of a max-min heap, over a sequence `a` of which the first `n` entries
are in the heap. The levels of the implicit tree alternate: what stands on a max
level is at least as good as everything below it, on a min level at most as good.

Sifting down starts at a node below which all is in order (`Sifted`), bubbling
up at a node above which all is (`Bubbling`). `better lt i` is the order as the
level of `i` reads it.
-/
import Mathlib.Order.RelClasses

namespace InferenceScheduler

open Function (swap)

namespace MaxMin

/-! ## Nodes and levels -/

def IsChild (i c : Nat) : Prop := c = 2 * i + 1 ∨ c = 2 * i + 2

/-- The node `j` is `i` or below it. -/
inductive Below (i : Nat) : Nat → Prop
  | refl : Below i i
  | child {j c : Nat} : Below i j → IsChild j c → Below i c

/-- Counted from the root, the odd levels are the min levels. -/
def isMinLevel (i : Nat) : Bool := (i + 1).log2 % 2 ≠ 0

theorem isMinLevel_child {i c : Nat} (h : IsChild i c) : isMinLevel c = !isMinLevel i := by
  have hlog : (c + 1).log2 = (i + 1).log2 + 1 := by
    have hhalf : (c + 1) / 2 = i + 1 := by rcases h with rfl | rfl <;> omega
    rw [Nat.log2_def, if_pos (by rcases h with rfl | rfl <;> omega), hhalf]
  unfold isMinLevel
  rw [hlog]
  rcases Nat.mod_two_eq_zero_or_one (i + 1).log2 with h | h <;> simp [Nat.add_mod, h]

theorem IsChild.lt {i c : Nat} (h : IsChild i c) : i < c := by
  rcases h with rfl | rfl <;> omega

theorem IsChild.parent {i c : Nat} (h : IsChild i c) : (c - 1) / 2 = i := by
  rcases h with rfl | rfl <;> omega

theorem isChild_parent {c : Nat} (h : c ≠ 0) : IsChild ((c - 1) / 2) c := by
  unfold IsChild
  omega

theorem IsChild.eq {i j c : Nat} (h : IsChild i c) (h' : IsChild j c) : i = j := by
  rw [← h.parent, h'.parent]

namespace Below

variable {i j k c : Nat}

theorem le (h : Below i j) : i ≤ j := by
  induction h with
  | refl => exact Nat.le_refl _
  | child _ hc ih => exact Nat.le_trans ih (Nat.le_of_lt hc.lt)

theorem trans (h : Below i j) (h' : Below j k) : Below i k := by
  induction h' with
  | refl => exact h
  | child _ hc ih => exact ih.child hc

theorem of_child (h : IsChild i c) : Below i c := .child .refl h

theorem parent (h : Below i j) (hne : j ≠ i) (hc : IsChild k j) : Below i k := by
  cases h with
  | refl => exact absurd rfl hne
  | child h hc' => exact hc'.eq hc ▸ h

theorem exists_child (h : Below i j) (hne : j ≠ i) : ∃ c, IsChild i c ∧ Below c j := by
  induction h with
  | refl => exact absurd rfl hne
  | @child j c h hc ih =>
    by_cases hj : j = i
    · subst hj
      exact ⟨c, hc, .refl⟩
    · obtain ⟨d, hd, hb⟩ := ih hj
      exact ⟨d, hd, hb.child hc⟩

theorem cases_grandchild (h : Below i j) :
    j = i ∨ IsChild i j ∨ ∃ c g, IsChild i c ∧ IsChild c g ∧ Below g j := by
  by_cases hi : j = i
  · exact .inl hi
  · obtain ⟨c, hc, hb⟩ := h.exists_child hi
    by_cases hj : j = c
    · exact .inr (.inl (hj ▸ hc))
    · obtain ⟨g, hg, hb⟩ := hb.exists_child hj
      exact .inr (.inr ⟨c, g, hc, hg, hb⟩)

theorem total (h : Below i k) (h' : Below j k) : Below i j ∨ Below j i := by
  induction h with
  | refl => exact .inr h'
  | @child m c h hc ih =>
    by_cases hj : j = c
    · subst hj
      exact .inl (h.child hc)
    · exact ih (h'.parent (Ne.symm hj) hc)

theorem root : ∀ j : Nat, Below 0 j
  | 0 => .refl
  | j + 1 => .child (root (j / 2)) (isChild_parent (Nat.succ_ne_zero j))

theorem antisymm (h : Below i j) (h' : Below j i) : i = j := Nat.le_antisymm h.le h'.le

end Below

/-! ## The order -/

section Order

variable {α : Type*} (lt : α → α → Prop)

/-- The order as the level of a node reads it: on a min level, better is
worse. -/
def better (i : Nat) (x y : α) : Prop := if isMinLevel i then lt y x else lt x y

theorem better_child {i c : Nat} (h : IsChild i c) : better lt c = swap (better lt i) := by
  funext x y
  unfold better
  rw [isMinLevel_child h]
  cases isMinLevel i <;> simp [swap]

theorem better_grandchild {i c g : Nat} (h : IsChild i c) (h' : IsChild c g) : better lt g = better lt i := by
  rw [better_child lt h', better_child lt h]

/-- The order at one node: nothing below it is better. -/
def OrderedAt (a : Nat → α) (n i : Nat) : Prop := ∀ j, Below i j → j < n → ¬better lt i (a j) (a i)

/-- The order of a max-min heap. -/
def Ordered (a : Nat → α) (n : Nat) : Prop := ∀ i, OrderedAt lt a n i

instance [IsStrictWeakOrder α lt] (i : Nat) : IsStrictWeakOrder α (better lt i) := by
  unfold better
  split
  · exact inferInstanceAs (IsStrictWeakOrder α (swap lt))
  · exact inferInstanceAs (IsStrictWeakOrder α lt)

end Order

section Weak

variable {α : Type*} {r : α → α → Prop} [IsStrictWeakOrder α r] {x y z : α}

theorem not_trans (h : ¬r x y) (h' : ¬r y z) : ¬r x z := by
  intro hxz
  by_cases hyx : r y x
  · exact h' (trans_of r hyx hxz)
  · by_cases hzy : r z y
    · exact h (trans_of r hxz hzy)
    · exact (IsStrictWeakOrder.incomp_trans x y z ⟨h, hyx⟩ ⟨h', hzy⟩).1 hxz

theorem not_of_lt (h : r x y) : ¬r y x := fun h' => irrefl_of r x (trans_of r h h')

end Weak

/-! ## Swaps -/

section Swap

variable {α : Type*} {a : Nat → α} {i j k : Nat}

def swapAt (a : Nat → α) (i j : Nat) : Nat → α := fun k => if k = i then a j else if k = j then a i else a k

@[simp] theorem swapAt_left : swapAt a i j i = a j := by simp [swapAt]

@[simp] theorem swapAt_right : swapAt a i j j = a i := by
  by_cases h : j = i
  · simp [swapAt, h]
  · simp [swapAt, h]

theorem swapAt_of_ne (hi : k ≠ i) (hj : k ≠ j) : swapAt a i j k = a k := by simp [swapAt, hi, hj]

theorem getElem?_swapIfInBounds {items : Array α} (hi : i < items.size) (hj : j < items.size) :
    (items.swapIfInBounds i j)[k]? = if k = i then items[j]? else if k = j then items[i]? else items[k]? := by
  by_cases hk : k < items.size
  · rw [Array.getElem?_eq_getElem (by simpa using hk), Array.getElem_swapIfInBounds]
    split
    · simp_all
    · split <;> simp_all
  · have hki : k ≠ i := by omega
    have hkj : k ≠ j := by omega
    simp [hki, hkj, hk]

end Swap

/-! ## Sifting down -/

section Sift

variable {α : Type*} {lt : α → α → Prop} {a a' b : Nat → α} {n i j m p : Nat}

/-- One or two levels below. -/
def Near (i j : Nat) : Prop := IsChild i j ∨ ∃ c, IsChild i c ∧ IsChild c j

theorem Near.below (h : Near i j) : Below i j := by
  rcases h with h | ⟨c, hc, h⟩
  · exact .of_child h
  · exact (Below.of_child hc).child h

theorem Near.ne (h : Near i j) : j ≠ i := by
  rcases h with h | ⟨c, hc, h⟩
  · exact Nat.ne_of_gt h.lt
  · exact Nat.ne_of_gt (Nat.lt_trans hc.lt h.lt)

/-- The order holds strictly below a node. -/
def OrderedBelow (lt : α → α → Prop) (a : Nat → α) (n i : Nat) : Prop :=
  ∀ j, Below i j → j ≠ i → OrderedAt lt a n j

/-- A best one of the nodes near below. -/
structure Best (lt : α → α → Prop) (a : Nat → α) (n i m : Nat) : Prop where
  near : Near i m
  bound : m < n
  best : ∀ j, Near i j → j < n → ¬better lt i (a j) (a m)

theorem Best.index_lt {lt : α → α → Prop} {a : Nat → α} {n i m : Nat} (h : Best lt a n i m) : i < n :=
  Nat.lt_of_le_of_lt h.near.below.le h.bound

/-- Sifting down from `i` rearranges what is below `i` and puts it in order. -/
structure Sifted (lt : α → α → Prop) (n i : Nat) (a a' : Nat → α) : Prop where
  frame : ∀ j, ¬Below i j → a' j = a j
  source : ∀ j, Below i j → j < n → ∃ k, Below i k ∧ k < n ∧ a' j = a k
  ordered : ∀ j, Below i j → OrderedAt lt a' n j

/-- Only what is below `i` is rearranged, and it stays there. -/
structure Confined (n i : Nat) (a a' : Nat → α) : Prop where
  frame : ∀ j, ¬Below i j → a' j = a j
  target : ∀ j, Below i j → j < n → ∃ k, Below i k ∧ k < n ∧ a' k = a j

theorem Confined.refl : Confined n i a a := ⟨fun _ _ => rfl, fun j hj hn => ⟨j, hj, hn, rfl⟩⟩

theorem Confined.trans (h : Confined n i a b) (him : Below i m) (h' : Confined n m b a') : Confined n i a a' := by
  refine ⟨fun j hj => ?_, fun j hj hn => ?_⟩
  · rw [h'.frame j (fun hm => hj (him.trans hm)), h.frame j hj]
  · obtain ⟨k, hk, hkn, hkj⟩ := h.target j hj hn
    by_cases hmk : Below m k
    · obtain ⟨k', hk', hkn', he⟩ := h'.target k hmk hkn
      exact ⟨k', him.trans hk', hkn', he.trans hkj⟩
    · exact ⟨k, hk, hkn, (h'.frame k hmk).trans hkj⟩

theorem Confined.swap (hj : Below i j) (hm : Below i m) (hjn : j < n) (hmn : m < n) :
    Confined n i a (swapAt a j m) := by
  refine ⟨fun k hk => swapAt_of_ne (fun he => hk (he ▸ hj)) (fun he => hk (he ▸ hm)), fun k hk hkn => ?_⟩
  by_cases hkj : k = j
  · exact ⟨m, hm, hmn, by rw [swapAt_right, hkj]⟩
  · by_cases hkm : k = m
    · exact ⟨j, hj, hjn, by rw [swapAt_left, hkm]⟩
    · exact ⟨k, hk, hkn, swapAt_of_ne hkj hkm⟩

theorem OrderedAt.congr (h : OrderedAt lt a n i) (he : ∀ j, Below i j → b j = a j) : OrderedAt lt b n i := by
  intro j hj hn
  rw [he j hj, he i .refl]
  exact h j hj hn

/-- What the swaps with a best grandchild `m` and its parent `p` leave. -/
structure Exchanged (lt : α → α → Prop) (a b : Nat → α) (i p m : Nat) : Prop where
  top : b i = a m
  rest : ∀ k, k ≠ i → k ≠ p → k ≠ m → b k = a k
  bottom : b p = a p ∧ b m = a i ∧ ¬better lt i (a p) (a i) ∨ b p = a i ∧ b m = a p ∧ better lt i (a p) (a i)

theorem Exchanged.keep (hne : p ≠ i) (hmp : m ≠ p) (h : ¬better lt i (a p) (a i)) :
    Exchanged lt a (swapAt a i m) i p m :=
  ⟨swapAt_left, fun _ hi _ hm => swapAt_of_ne hi hm, .inl ⟨swapAt_of_ne hne hmp.symm, swapAt_right, h⟩⟩

theorem Exchanged.swap (hne : p ≠ i) (hmi : m ≠ i) (hmp : m ≠ p) (h : better lt i (a p) (a i)) :
    Exchanged lt a (swapAt (swapAt a i m) m p) i p m := by
  refine ⟨?_, fun k hi hp hm => ?_, .inr ⟨?_, ?_, h⟩⟩
  · rw [swapAt_of_ne hmi.symm hne.symm, swapAt_left]
  · rw [swapAt_of_ne hm hp, swapAt_of_ne hi hm]
  · rw [swapAt_right, swapAt_right]
  · rw [swapAt_left, swapAt_of_ne hne hmp.symm]

theorem Exchanged.orderedBelow (h : Exchanged lt a b i p m) (hp : IsChild i p) (hm : IsChild p m)
    (hs : OrderedBelow lt a n i) : OrderedBelow lt b n m := by
  intro j hj hjm
  have him : Below i m := (Below.of_child hp).child hm
  have hmj : m < j := Nat.lt_of_le_of_ne hj.le (Ne.symm hjm)
  have hpm := hm.lt
  have hip := hp.lt
  refine (hs j (him.trans hj) (by omega)).congr fun k hk => ?_
  have := hk.le
  exact h.rest k (by omega) (by omega) (by omega)

theorem Sifted.orderedAt (h : Sifted lt n i a a') (hj : OrderedAt lt a n j) (hij : ¬Below i j) :
    OrderedAt lt a' n j := by
  intro k hk hkn
  rw [h.frame j hij]
  by_cases hik : Below i k
  · obtain ⟨k', hk', hkn', he⟩ := h.source k hik hkn
    rw [he]
    exact hj k' (((hik.total hk).resolve_left hij).trans hk') hkn'
  · rw [h.frame k hik]
    exact hj k hk hkn

variable [IsStrictWeakOrder α lt]

theorem Best.not_better (h : Best lt a n i m) (hs : OrderedBelow lt a n i) (hj : Below i j) (hne : j ≠ i)
    (hn : j < n) : ¬better lt i (a j) (a m) := by
  rcases hj.cases_grandchild with rfl | hc | ⟨c, g, hc, hg, hb⟩
  · exact absurd rfl hne
  · exact h.best j (.inl hc) hn
  · have hg' : Near i g := .inr ⟨c, hc, hg⟩
    have hgj : ¬better lt i (a j) (a g) := better_grandchild lt hc hg ▸ hs g hg'.below hg'.ne j hb hn
    exact not_trans hgj (h.best g hg' (Nat.lt_of_le_of_lt hb.le hn))

theorem Best.sifted (h : Best lt a n i m) (hs : OrderedBelow lt a n i) (hm : ¬better lt i (a m) (a i)) :
    Sifted lt n i a a := by
  refine ⟨fun _ _ => rfl, fun j hj hn => ⟨j, hj, hn, rfl⟩, fun j hj => ?_⟩
  by_cases hji : j = i
  · subst hji
    intro k hk hn
    by_cases hkj : k = j
    · rw [hkj]
      exact irrefl_of _ _
    · exact not_trans (h.not_better hs hk hkj hn) hm
  · exact hs j hj hji

theorem Sifted.leaf (h : n ≤ 2 * i + 1) : Sifted lt n i a a := by
  have hlast : ∀ j, Below i j → j < n → j = i := by
    intro j hj hn
    by_contra hne
    obtain ⟨c, hc, hb⟩ := hj.exists_child hne
    have := hb.le
    rcases hc with rfl | rfl <;> omega
  refine ⟨fun _ _ => rfl, fun j hj hn => ⟨j, hj, hn, rfl⟩, fun j hj k hk hn => ?_⟩
  have hj' := hlast j hj (Nat.lt_of_le_of_lt hk.le hn)
  have hk' := hlast k (hj.trans hk) hn
  rw [hj', hk']
  exact irrefl_of _ _

theorem Below.not_of_lt (h : i < m) : ¬Below m i := fun hb => Nat.not_lt.mpr hb.le h

theorem Below.off_child (hc : IsChild i m) (hi : Below i j) (hne : j ≠ i) (hm : j ≠ m) : ¬Below j m := by
  intro hb
  exact hne (hi.antisymm (hb.parent (Ne.symm hm) hc)).symm

theorem Best.sifted_child (h : Best lt a n i m) (hc : IsChild i m) (hleaf : n ≤ 2 * m + 1)
    (hs : OrderedBelow lt a n i) (hm : better lt i (a m) (a i)) : Sifted lt n i a (swapAt a i m) := by
  have hin : i < n := Nat.lt_trans hc.lt h.bound
  refine ⟨fun j hj => ?_, fun j hj hn => ?_, fun j hj => ?_⟩
  · exact swapAt_of_ne (fun he => hj (he ▸ .refl)) fun he => hj (he ▸ .of_child hc)
  · by_cases hji : j = i
    · exact ⟨m, .of_child hc, h.bound, by rw [hji, swapAt_left]⟩
    · by_cases hjm : j = m
      · exact ⟨i, .refl, hin, by rw [hjm, swapAt_right]⟩
      · exact ⟨j, hj, hn, swapAt_of_ne hji hjm⟩
  · by_cases hji : j = i
    · subst hji
      intro k hk hn
      rw [swapAt_left]
      by_cases hkj : k = j
      · rw [hkj, swapAt_left]
        exact irrefl_of _ _
      · by_cases hkm : k = m
        · rw [hkm, swapAt_right]
          exact MaxMin.not_of_lt hm
        · rw [swapAt_of_ne hkj hkm]
          exact h.not_better hs hk hkj hn
    · by_cases hjm : j = m
      · have hord : OrderedAt lt (swapAt a i m) n m := (Sifted.leaf hleaf).ordered m .refl
        exact hjm ▸ hord
      · refine (hs j hj hji).congr fun k hk => swapAt_of_ne (fun he => ?_) fun he => ?_
        · exact hji (hj.antisymm (he ▸ hk)).symm
        · exact Below.off_child hc hj hji hjm (he ▸ hk)

theorem Best.sifted_grandchild (h : Best lt a n i m) (hp : IsChild i p) (hm : IsChild p m)
    (hs : OrderedBelow lt a n i) (hlt : better lt i (a m) (a i)) (hx : Exchanged lt a b i p m)
    (hsift : Sifted lt n m b a') : Sifted lt n i a a' := by
  have hip := hp.lt
  have hpm := hm.lt
  have hmn := h.bound
  have hbp : Below i p := .of_child hp
  have hbm : Below i m := hbp.child hm
  have hkeep : ∀ k, ¬Below m k → a' k = b k := hsift.frame
  have hnm : ¬Below m i := Below.not_of_lt (by omega)
  have hnp : ¬Below m p := Below.not_of_lt hpm
  -- what stands in the place of `p` is not better than what stood there
  have hbot : ¬better lt i (b p) (b m) ∧ ¬better lt i (b p) (a p) := by
    rcases hx.bottom with ⟨h₁, h₂, h₃⟩ | ⟨h₁, h₂, h₃⟩
    · exact ⟨by rwa [h₁, h₂], by rw [h₁]; exact irrefl_of _ _⟩
    · exact ⟨by rw [h₁, h₂]; exact MaxMin.not_of_lt h₃, by rw [h₁]; exact MaxMin.not_of_lt h₃⟩
  have hsource : ∀ k, Below i k → k < n → ∃ k', Below i k' ∧ k' < n ∧ b k = a k' := by
    intro k hk hkn
    by_cases hki : k = i
    · exact ⟨m, hbm, hmn, hki ▸ hx.top⟩
    · by_cases hkp : k = p
      · subst hkp
        rcases hx.bottom with ⟨h₁, -, -⟩ | ⟨h₁, -, -⟩
        · exact ⟨k, hk, hkn, h₁⟩
        · exact ⟨i, .refl, by omega, h₁⟩
      · by_cases hkm : k = m
        · subst hkm
          rcases hx.bottom with ⟨-, h₂, -⟩ | ⟨-, h₂, -⟩
          · exact ⟨i, .refl, by omega, h₂⟩
          · exact ⟨p, hbp, by omega, h₂⟩
        · exact ⟨k, hk, hkn, hx.rest k hki hkp hkm⟩
  have hsource' : ∀ k, Below i k → k < n → ∃ k', Below i k' ∧ k' < n ∧ a' k = a k' := by
    intro k hk hkn
    by_cases hkm : Below m k
    · obtain ⟨k', hk', hkn', he⟩ := hsift.source k hkm hkn
      rw [he]
      exact hsource k' (hbm.trans hk') hkn'
    · rw [hkeep k hkm]
      exact hsource k hk hkn
  refine ⟨fun j hj => ?_, hsource', fun j hj => ?_⟩
  · rw [hkeep j fun hb => hj (hbm.trans hb)]
    exact hx.rest j (fun he => hj (he ▸ .refl)) (fun he => hj (he ▸ hbp)) fun he => hj (he ▸ hbm)
  · by_cases hjm : Below m j
    · exact hsift.ordered j hjm
    · by_cases hji : j = i
      · -- the best one is on top
        subst hji
        intro k hk hkn
        obtain ⟨k', hk', hkn', he⟩ := hsource' k hk hkn
        rw [he, hkeep j hnm, hx.top]
        by_cases hkj : k' = j
        · rw [hkj]
          exact MaxMin.not_of_lt hlt
        · exact h.not_better hs hk' hkj hkn'
      · by_cases hjp : j = p
        · subst hjp
          intro k hk hkn
          rw [hkeep j hnp, better_child lt hp]
          have hold : ∀ k, Below j k → k < n → ¬better lt i (b j) (a k) := fun k hk hkn =>
            not_trans hbot.2 (by simpa [better_child lt hp, swap] using hs j hbp hji k hk hkn)
          show ¬better lt i (b j) (a' k)
          by_cases hkm : Below m k
          · obtain ⟨k', hk', hkn', he⟩ := hsift.source k hkm hkn
            rw [he]
            by_cases hkm' : k' = m
            · rw [hkm']
              exact hbot.1
            · have := hk'.le
              rw [hx.rest k' (by omega) (by omega) hkm']
              exact hold k' ((Below.of_child hm).trans hk') hkn'
          · rw [hkeep k hkm]
            by_cases hkj : k = j
            · rw [hkj]
              exact irrefl_of _ _
            · have := hk.le
              rw [hx.rest k (by omega) hkj fun he => hkm (he ▸ .refl)]
              exact hold k hk hkn
        · -- the way to the grandchild does not pass through `j`
          have hoff : ¬Below j p := Below.off_child hp hj hji hjp
          have hoffm : ¬Below j m := fun hb => hoff (hb.parent (fun he => hjm (he ▸ .refl)) hm)
          refine (hs j hj hji).congr fun k hk => ?_
          have hkm : ¬Below m k := fun hb => (hb.total hk).elim hjm hoffm
          rw [hkeep k hkm]
          refine hx.rest k (fun he => ?_) (fun he => hoff (he ▸ hk)) fun he => hoffm (he ▸ hk)
          exact hji (hj.antisymm (he ▸ hk)).symm

end Sift

/-! ## Bubbling up -/

section Bubble

variable {α : Type*} {lt : α → α → Prop} {a : Nat → α} {n i p g : Nat}

/-- The order holds but for what stands at `i`, which may be better than what
stands above it on levels of its kind. -/
structure Bubbling (lt : α → α → Prop) (a : Nat → α) (n i : Nat) : Prop where
  others : ∀ j k, Below j k → k < n → k ≠ i → ¬better lt j (a k) (a j)
  opposite : ∀ j, Below j i → isMinLevel j ≠ isMinLevel i → ¬better lt j (a i) (a j)

theorem better_of_level {i j : Nat} (h : isMinLevel j = isMinLevel i) : better lt j = better lt i := by
  unfold better
  rw [h]

theorem better_of_level_ne {i j : Nat} (h : isMinLevel j ≠ isMinLevel i) :
    better lt j = swap (better lt i) := by
  funext x y
  unfold better
  cases hi : isMinLevel i <;> cases hj : isMinLevel j <;> simp_all [swap]

variable [IsStrictWeakOrder α lt]

theorem Bubbling.ordered (h : Bubbling lt a n i)
    (hsame : ∀ j, Below j i → j ≠ i → isMinLevel j = isMinLevel i → ¬better lt i (a i) (a j)) : Ordered lt a n := by
  intro j k hk hn
  by_cases hki : k = i
  · subst hki
    by_cases hjk : j = k
    · rw [hjk]
      exact irrefl_of _ _
    · by_cases hl : isMinLevel j = isMinLevel k
      · rw [better_of_level hl]
        exact hsame j hk hjk hl
      · exact h.opposite j hk hl
  · exact h.others j k hk hn hki

theorem Bubbling.ordered_top (h : Bubbling lt a n i) (hi : (i - 1) / 2 = 0) : Ordered lt a n := by
  refine h.ordered fun j hj hne hl => ?_
  have hlt : j < i := Nat.lt_of_le_of_ne hj.le hne
  have hchild := isChild_parent (c := i) (by omega)
  have hroot : j = (i - 1) / 2 := by
    have := (hj.parent (Ne.symm hne) hchild).le
    omega
  rw [← hroot] at hchild
  rw [isMinLevel_child hchild] at hl
  cases hm : isMinLevel j <;> simp [hm] at hl

theorem Bubbling.ordered_stop (h : Bubbling lt a n i) (hn : i < n) (hp : IsChild p i) (hg : IsChild g p)
    (hlt : ¬better lt i (a i) (a g)) : Ordered lt a n := by
  refine h.ordered fun j hj hne hl => ?_
  have hjp : Below j p := hj.parent (Ne.symm hne) hp
  have hne' : p ≠ j := by
    rintro rfl
    rw [isMinLevel_child hp] at hl
    cases hm : isMinLevel p <;> simp [hm] at hl
  have hjg : Below j g := hjp.parent hne' hg
  have hgi := hg.lt
  have hpi := hp.lt
  have hold := h.others j g hjg (by omega) (by omega)
  rw [better_of_level hl] at hold
  exact not_trans hlt hold

theorem Bubbling.move (h : Bubbling lt a n i) (hn : i < n) (hp : IsChild p i) (hg : IsChild g p)
    (hlt : better lt i (a i) (a g)) : Bubbling lt (swapAt a i g) n g := by
  have hgp := hg.lt
  have hpi := hp.lt
  have hgi : Below g i := (Below.of_child hg).child hp
  have hbetter : better lt g = better lt i := (better_grandchild lt hg hp).symm
  have hlevel : isMinLevel g = isMinLevel i := by
    rw [isMinLevel_child hp, isMinLevel_child hg, Bool.not_not]
  have hgn : g < n := by omega
  refine ⟨fun j k hk hkn hkg => ?_, fun j hj hl => ?_⟩
  · by_cases hki : k = i
    · -- the grandparent stands at `i`
      subst hki
      rw [swapAt_left]
      by_cases hjk : j = k
      · rw [hjk, swapAt_left]
        exact irrefl_of _ _
      · by_cases hjg : j = g
        · rw [hjg, swapAt_right, hbetter]
          exact not_of_lt hlt
        · rw [swapAt_of_ne hjk hjg]
          by_cases hjp : j = p
          · subst hjp
            have hold := h.others g j (.of_child hg) (by omega) (by omega)
            rw [better_child lt hg]
            exact hold
          · have hjp' : Below j p := hk.parent (Ne.symm hjk) hp
            have hjg' : Below j g := hjp'.parent (Ne.symm hjp) hg
            exact h.others j g hjg' hgn (by omega)
    · rw [swapAt_of_ne hki hkg]
      by_cases hjg : j = g
      · rw [hjg, swapAt_right, hbetter]
        have hold := h.others g k (hjg ▸ hk) hkn hki
        rw [hbetter] at hold
        exact not_trans hold (not_of_lt hlt)
      · by_cases hji : j = i
        · rw [hji, swapAt_left, ← hbetter]
          exact h.others g k (hgi.trans (hji ▸ hk)) hkn hki
        · rw [swapAt_of_ne hji hjg]
          exact h.others j k hk hkn hki
  · have hjg : j ≠ g := fun he => hl (he ▸ rfl)
    have hji : j ≠ i := fun he => hl (he ▸ hlevel.symm)
    rw [swapAt_right, swapAt_of_ne hji hjg]
    have hold := h.others j g hj hgn (by omega)
    have hj' : better lt j = swap (better lt i) := better_of_level_ne (hlevel ▸ hl)
    rw [hj'] at hold ⊢
    show ¬better lt i (a j) (a i)
    exact not_trans hold (not_of_lt hlt)

theorem Bubbling.push (h : Ordered lt a i) (hp : IsChild p i) (hlt : ¬better lt p (a i) (a p)) :
    Bubbling lt a (i + 1) i := by
  refine ⟨fun j k hk hn hki => h j k hk (by omega), fun j hj hl => ?_⟩
  have hji : j ≠ i := fun he => hl (he ▸ rfl)
  have hjp : Below j p := hj.parent (Ne.symm hji) hp
  have hlp : isMinLevel j = isMinLevel p := by
    rw [isMinLevel_child hp] at hl
    cases hm : isMinLevel j <;> simp_all
  have hold := h j p hjp hp.lt
  rw [better_of_level hlp] at hold ⊢
  exact not_trans hlt hold

theorem Bubbling.push_swap (h : Ordered lt a i) (hp : IsChild p i) (hlt : better lt p (a i) (a p)) :
    Bubbling lt (swapAt a i p) (i + 1) p := by
  have hpi := hp.lt
  -- nothing but `i` itself is below `i`
  have hleaf : ∀ k, Below i k → k < i + 1 → k = i := fun k hk hn => by
    have := hk.le
    omega
  refine ⟨fun j k hk hn hkp => ?_, fun j hj hl => ?_⟩
  · by_cases hji : j = i
    · subst hji
      rw [hleaf k hk hn]
      exact irrefl_of _ _
    · by_cases hki : k = i
      · subst hki
        rw [swapAt_left]
        by_cases hjp : j = p
        · rw [hjp, swapAt_right]
          exact not_of_lt hlt
        · rw [swapAt_of_ne hji hjp]
          exact h j p (hk.parent (Ne.symm hji) hp) hpi
      · rw [swapAt_of_ne hki hkp]
        by_cases hjp : j = p
        · rw [hjp, swapAt_right]
          exact not_trans (h p k (hjp ▸ hk) (by omega)) (not_of_lt hlt)
        · rw [swapAt_of_ne hji hjp]
          exact h j k hk (by omega)
  · have hjp : j ≠ p := fun he => hl (he ▸ rfl)
    have hji : j ≠ i := fun he => Nat.not_lt.mpr (he ▸ hj).le hpi
    rw [swapAt_right, swapAt_of_ne hji hjp]
    have hold := h j p hj hpi
    rw [better_of_level_ne hl] at hold ⊢
    show ¬better lt p (a j) (a i)
    exact not_trans hold (not_of_lt hlt)

end Bubble

/-! ## Another item at a node -/

section Replace

variable {α : Type*} {lt : α → α → Prop} {a b : Nat → α} {n m i j p : Nat} {x : α}

theorem Ordered.congr (h : Ordered lt a n) (hm : m ≤ n) (he : ∀ k < m, b k = a k) : Ordered lt b m := by
  intro j k hk hkm
  rw [he j (Nat.lt_of_le_of_lt hk.le hkm), he k hkm]
  exact h j k hk (Nat.lt_of_lt_of_le hkm hm)

theorem Ordered.replace (h : Ordered lt a n) (hm : m ≤ n) (he : ∀ k < m, k ≠ i → b k = a k)
    (habove : ∀ j, Below j i → j ≠ i → ¬better lt j (b i) (a j)) (hj : j ≠ i) : OrderedAt lt b m j := by
  intro k hk hkm
  rw [he j (Nat.lt_of_le_of_lt hk.le hkm) hj]
  by_cases hki : k = i
  · subst hki
    exact habove j hk hj
  · rw [he k hkm hki]
    exact h j k hk (Nat.lt_of_lt_of_le hkm hm)

theorem Ordered.not_better_above [IsStrictWeakOrder α lt] (h : Ordered lt a n) (hi : i < n) (hp : IsChild p i)
    (hpx : ¬better lt p x (a p)) (hgx : ∀ g, IsChild g p → ¬better lt g x (a g)) (hj : Below j i) (hne : j ≠ i) :
    ¬better lt j x (a j) := by
  have hpi := hp.lt
  have hjp : Below j p := hj.parent (Ne.symm hne) hp
  by_cases heq : j = p
  · rw [heq]
    exact hpx
  · have hpos : p ≠ 0 := fun h0 => heq (by have := hjp.le; omega)
    have hg := isChild_parent hpos
    have hgp := hg.lt
    have hjg := hjp.parent (Ne.symm heq) hg
    -- the level of `j` is that of the parent or that of the grandparent
    by_cases hl : isMinLevel j = isMinLevel p
    · have hold := h j p hjp (by omega)
      rw [better_of_level hl] at hold ⊢
      exact not_trans hpx hold
    · have hl' : isMinLevel j = isMinLevel ((p - 1) / 2) := by
        rw [isMinLevel_child hg] at hl
        cases hm : isMinLevel j <;> simp_all
      have hold := h j _ hjg (by omega)
      rw [better_of_level hl'] at hold ⊢
      exact not_trans (hgx _ hg) hold

end Replace

/-! ## The ends of the order -/

section Ends

variable {α : Type*} {lt : α → α → Prop} {a : Nat → α} {n j : Nat}

theorem Ordered.root (h : Ordered lt a n) (hn : j < n) : ¬lt (a j) (a 0) := h 0 j (.root j) hn

theorem Ordered.child_root (h : Ordered lt a n) {c : Nat} (hc : IsChild 0 c) (hj : Below c j) (hn : j < n) :
    ¬lt (a c) (a j) := by
  have hold := h c j hj hn
  rw [better_child lt hc] at hold
  exact hold

end Ends

end MaxMin

end InferenceScheduler
