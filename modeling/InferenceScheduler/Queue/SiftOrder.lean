/-
The loops of the max-min heap restore its order. `view` reads the slice as a
sequence; the facts about single swaps are those of `MaxMin`.

Trickling down has a precondition the source does not check: when a round swaps
with a child rather than a grandchild, the child has to be a leaf
(`swapsLeaves`). It is one whenever no two items are equivalent.
-/
import InferenceScheduler.Queue.Sift

namespace InferenceScheduler.Queue

open MaxMin (IsChild Below Near Best Sifted Bubbling Ordered OrderedAt OrderedBelow Exchanged swapAt better)

section

variable {σ ι : Type*}

/-- `Less` as a relation. -/
def Precedes (less : ι → ι → Bool) (x y : ι) : Prop := less x y = true

/-- The slice as a sequence; what stands beyond its end does not matter. -/
def view (d : ι) (items : Array ι) (k : Nat) : ι := items.getD k d

theorem view_swap {d : ι} {items : Array ι} {i j : Nat} (hi : i < items.size) (hj : j < items.size) :
    view d (items.swapIfInBounds i j) = swapAt (view d items) i j := by
  funext k
  by_cases hk : k < items.size
  · simp only [view, swapAt, Array.getD_eq_getD_getElem?]
    rw [Array.getElem?_eq_getElem (by simpa using hk), Array.getElem_swapIfInBounds]
    split
    · simp_all
    · split <;> simp_all
  · have hki : k ≠ i := by omega
    have hkj : k ≠ j := by omega
    rw [MaxMin.swapAt_of_ne hki hkj]
    simp [view, Array.getD, hk]

/-- `Less` as the level of an index reads it. -/
def oriented (less : ι → ι → Bool) (i : Nat) : ι → ι → Bool := if isMinLevel i then flipped less else less

theorem better_iff {less : ι → ι → Bool} {i : Nat} {x y : ι} :
    better (Precedes less) i x y ↔ oriented less i x y = true := by
  unfold better oriented isMinLevel
  split
  · exact Iff.rfl
  · exact Iff.rfl

theorem lessAt_iff {less : ι → ι → Bool} {d : ι} {items : Array ι} {i j k : Nat} (hj : j < items.size)
    (hk : k < items.size) : lessAt (oriented less i) items j k ↔
      better (Precedes less) i (view d items j) (view d items k) := by
  rw [better_iff]
  simp [lessAt, view, Array.getD, hj, hk]

theorem oriented_child {less : ι → ι → Bool} {i c : Nat} (h : IsChild i c) :
    oriented less c = flipped (oriented less i) := by
  unfold oriented isMinLevel
  rw [MaxMin.isMinLevel_child h]
  cases MaxMin.isMinLevel i
  · rfl
  · rfl

theorem oriented_grandchild {less : ι → ι → Bool} {i c g : Nat} (h : IsChild i c) (h' : IsChild c g) :
    oriented less g = oriented less i := by
  rw [oriented_child h', oriented_child h]
  rfl

theorem down_eq {S : Slots σ ι} {less : ι → ι → Bool} {s : σ} {i : Nat} :
    down S less s i = trickle S (oriented less i) s i := by
  unfold down oriented downMin downMax
  split <;> rfl

/-- `Less` is a strict weak order. -/
abbrev WeakOrder (less : ι → ι → Bool) : Prop := IsStrictWeakOrder ι (Precedes less)

/-! ## The best child or grandchild -/

section

variable (less : ι → ι → Bool) [WeakOrder less] {items : Array ι} (d : ι)

theorem foldl_bestGrandchild (i : Nat) : ∀ (js : List Nat) {m : Nat}, m < items.size → ∀ j, (j = m ∨ j ∈ js) →
    j < items.size → ¬better (Precedes less) i (view d items j)
        (view d items (js.foldl (bestGrandchild (oriented less i) items) m))
  | [], m, _, j, hj, _ => by
    rcases hj with rfl | hj
    · exact irrefl_of _ _
    · cases hj
  | k :: js, m, hm, j, hj, hn => by
    rw [List.foldl_cons]
    by_cases hk : k < items.size ∧ lessAt (oriented less i) items k m
    · rw [bestGrandchild, if_pos hk]
      have hkm : better (Precedes less) i (view d items k) (view d items m) :=
        (lessAt_iff hk.1 hm).mp hk.2
      have ih := foldl_bestGrandchild i js hk.1
      rcases hj with rfl | hj
      · exact MaxMin.not_trans (MaxMin.not_of_lt hkm) (ih k (.inl rfl) hk.1)
      · exact ih j (List.mem_cons.mp hj) hn
    · rw [bestGrandchild, if_neg hk]
      have ih := foldl_bestGrandchild i js hm
      rcases hj with rfl | hj
      · exact ih j (.inl rfl) hn
      · rcases List.mem_cons.mp hj with rfl | hj
        · have hkm : ¬better (Precedes less) i (view d items j) (view d items m) := fun hb =>
            hk ⟨hn, (lessAt_iff hn hm).mpr hb⟩
          exact MaxMin.not_trans hkm (ih m (.inl rfl) hm)
        · exact ih j (.inr hj) hn

theorem not_better_of_findChildOrGrandchild {k i m : Nat}
    (h : findChildOrGrandchild (oriented less k) items i = some m) (j : Nat) (hj : MaxMin.Near i j)
    (hn : j < items.size) : ¬better (Precedes less) k (view d items j) (view d items m) := by
  simp only [findChildOrGrandchild] at h
  split at h
  · cases h
  · rename_i hleft
    cases h
    rcases hj with hj | hj
    · -- a child: the comparison of the two, then the loop
      have hle : 2 * i + 1 < items.size := by omega
      split
      · rename_i hr
        have hrl : better (Precedes less) k (view d items (2 * i + 2)) (view d items (2 * i + 1)) :=
          (lessAt_iff hr.1 hle).mp hr.2
        have hloop := foldl_bestGrandchild less d k (List.range' (2 * (2 * i + 1) + 1) 4) hr.1
          (2 * i + 2) (.inl rfl) hr.1
        rcases hj with rfl | rfl
        · exact MaxMin.not_trans (MaxMin.not_of_lt hrl) hloop
        · exact hloop
      · rename_i hr
        have hloop := foldl_bestGrandchild less d k (List.range' (2 * (2 * i + 1) + 1) 4) hle
          (2 * i + 1) (.inl rfl) hle
        rcases hj with rfl | rfl
        · exact hloop
        · have hrl : ¬better (Precedes less) k (view d items (2 * i + 2)) (view d items (2 * i + 1)) := fun hb =>
            hr ⟨hn, (lessAt_iff hn hle).mpr hb⟩
          exact MaxMin.not_trans hrl hloop
    · refine foldl_bestGrandchild less d k _ ?_ j (.inr (mem_grandchildren.mpr hj)) hn
      split
      · rename_i hr
        exact hr.1
      · omega

theorem best_of_findChildOrGrandchild {i m : Nat}
    (h : findChildOrGrandchild (oriented less i) items i = some m) :
    Best (Precedes less) (view d items) items.size i m :=
  have hnear := near_of_findChildOrGrandchild h
  ⟨hnear.1, hnear.2, not_better_of_findChildOrGrandchild less d h⟩

end

/-! ## Down -/

section

variable {S : Slots σ ι} {less : ι → ι → Bool} {s : σ} {i m : Nat} {d : ι}

/-- Every round of trickling down that swaps with a child swaps with a
leaf. -/
def swapsLeaves (S : Slots σ ι) (less : ι → ι → Bool) (s : σ) (i : Nat) : Bool :=
  match _h : findChildOrGrandchild less (S.items s) i with
  | none => true
  | some m =>
    if lessAt less (S.items s) m i then
      if (m - 1) / 2 = i then (S.items s).size ≤ 2 * m + 1 else swapsLeaves S less (exchange S less s i m) m
    else true
termination_by (S.items s).size - i
decreasing_by
  have hm := near_of_findChildOrGrandchild _h
  have hi := hm.1.below.le
  have hne := hm.1.ne
  rw [size_exchange]
  omega

theorem swapsLeaves_some (hm : findChildOrGrandchild less (S.items s) i = some m)
    (hlt : lessAt less (S.items s) m i) : swapsLeaves S less s i =
      if (m - 1) / 2 = i then decide ((S.items s).size ≤ 2 * m + 1)
      else swapsLeaves S less (exchange S less s i m) m := by
  rw [swapsLeaves]
  split
  · rename_i h
    rw [hm] at h
    cases h
  · rename_i h
    rw [hm] at h
    cases h
    rw [if_pos hlt]

theorem trickle_leaf (h : (S.items s).size ≤ 2 * i + 1) : trickle S less s i = s := by
  have hnone : findChildOrGrandchild less (S.items s) i = none := by
    rw [findChildOrGrandchild, if_pos h]
  unfold trickle
  split
  · rfl
  · rename_i hm
    rw [hnone] at hm
    cases hm

theorem exchange_child (h : IsChild i m) : exchange S less s i m = S.swap s i m := by
  rw [exchange, if_neg]
  exact fun hp => hp.1 h.parent

theorem exchange_grandchild {p : Nat} (hp : IsChild i p) (hm : IsChild p m) (hn : m < (S.items s).size) :
    Exchanged (Precedes less) (view d (S.items s)) (view d (S.items (exchange S (oriented less i) s i m))) i p m := by
  have hip := hp.lt
  have hpm := hm.lt
  have hin : i < (S.items s).size := by omega
  have hpn : p < (S.items s).size := by omega
  have hview : view d (S.items (S.swap s i m)) = swapAt (view d (S.items s)) i m := by
    rw [S.items_swap, view_swap hin hn]
  have hless : lessAt (oriented less i) (S.items (S.swap s i m)) p m ↔
      better (Precedes less) i (view d (S.items s) p) (view d (S.items s) i) := by
    rw [lessAt_iff (d := d) (by simpa using hpn) (by simpa using hn), hview,
      MaxMin.swapAt_of_ne (by omega) (by omega), MaxMin.swapAt_right]
  simp only [exchange, hm.parent]
  split
  · rename_i h
    rw [S.items_swap, view_swap (by simpa using hn) (by simpa using hpn), hview]
    exact .swap (by omega) (by omega) (by omega) (hless.mp h.2)
  · rename_i h
    rw [hview]
    exact .keep (by omega) (by omega) fun hb => h ⟨by omega, hless.mpr hb⟩

/-- **Trickling down restores the order below an index**, when its rounds with
children swap with leaves. -/
theorem trickle_sifted [WeakOrder less] (hs : OrderedBelow (Precedes less) (view d (S.items s)) (S.items s).size i)
    (hl : swapsLeaves S (oriented less i) s i) :
    Sifted (Precedes less) (S.items s).size i (view d (S.items s))
      (view d (S.items (trickle S (oriented less i) s i))) := by
  generalize hr : oriented less i = r at hl
  fun_induction trickle S r s i with
  | case1 s i hnone =>
    refine .leaf ?_
    by_contra hlt
    simp [findChildOrGrandchild, hlt] at hnone
  | case2 s i m hm hlt ih =>
    subst hr
    have hbest : Best (Precedes less) (view d (S.items s)) (S.items s).size i m :=
      best_of_findChildOrGrandchild less d hm
    have hin : i < (S.items s).size := hbest.index_lt
    have hbetter := (lessAt_iff (d := d) hbest.bound hin).mp hlt
    rw [swapsLeaves_some hm hlt] at hl
    rcases hbest.near with hc | ⟨p, hp, hc⟩
    · -- a child, which is a leaf
      rw [if_pos hc.parent, decide_eq_true_eq] at hl
      rw [exchange_child hc, trickle_leaf (by simpa using hl), S.items_swap, view_swap hin hbest.bound]
      exact hbest.sifted_child hc hl hs hbetter
    · have hip := hp.lt
      have hpi : (m - 1) / 2 ≠ i := by
        rw [hc.parent]
        omega
      rw [if_neg hpi] at hl
      have hx : Exchanged (Precedes less) (view d (S.items s))
        (view d (S.items (exchange S (oriented less i) s i m))) i p m := exchange_grandchild hp hc hbest.bound
      have hrec := ih (size_exchange S _ s i m ▸ hx.orderedBelow hp hc hs) (oriented_grandchild hp hc) hl
      rw [size_exchange] at hrec
      exact hbest.sifted_grandchild hp hc hs hbetter hx hrec
  | case3 s i m hm hlt =>
    subst hr
    have hbest : Best (Precedes less) (view d (S.items s)) (S.items s).size i m :=
      best_of_findChildOrGrandchild less d hm
    have hin : i < (S.items s).size := hbest.index_lt
    exact hbest.sifted hs fun hb => hlt ((lessAt_iff hbest.bound hin).mpr hb)

/-- No two items are equivalent. -/
def Untied (less : ι → ι → Bool) (items : List ι) : Prop :=
  items.Pairwise fun x y => Precedes less x y ∨ Precedes less y x

theorem Untied.view {items : Array ι} (h : Untied less items.toList) {j k : Nat} (hj : j < items.size)
    (hk : k < items.size) (hne : j ≠ k) :
    Precedes less (view d items j) (view d items k) ∨ Precedes less (view d items k) (view d items j) := by
  have hget : ∀ {j k}, j < k → (hk : k < items.size) →
      Precedes less (Queue.view d items j) (Queue.view d items k) ∨
        Precedes less (Queue.view d items k) (Queue.view d items j) := by
    intro j k hjk hk
    have hp := List.pairwise_iff_getElem.mp h j k (by simp; omega) (by simpa using hk) hjk
    simpa [Queue.view, Array.getD, hk, Nat.lt_trans hjk hk] using hp
  rcases Nat.lt_or_gt_of_ne hne with hlt | hlt
  · exact hget hlt hk
  · exact (hget hlt hj).symm

theorem better_or_better {x y : ι} (h : Precedes less x y ∨ Precedes less y x) :
    better (Precedes less) i x y ∨ better (Precedes less) i y x := by
  unfold better
  split
  · exact h.symm
  · exact h

theorem keptBySwaps_perm (l : List ι) : KeptBySwaps S fun s => (S.items s).toList.Perm l := by
  intro s i j hs hi hj
  show (S.items (S.swap s i j)).toList.Perm l
  rw [S.items_swap, Array.swapIfInBounds_def, dif_pos hi, dif_pos hj]
  exact (Array.swap_perm hi hj).toList.trans hs

theorem Untied.perm {l l' : List ι} (h : Untied less l) (hp : l'.Perm l) : Untied less l' :=
  (hp.pairwise_iff fun h => Or.symm h).mpr h

theorem keptBySwaps_untied (less : ι → ι → Bool) : KeptBySwaps S fun s => Untied less (S.items s).toList :=
  fun s i j hs hi hj => hs.perm (keptBySwaps_perm (S.items s).toList s i j (.refl _) hi hj)

/-- **Without ties, trickling down swaps with children only when they are leaves.** -/
theorem swapsLeaves_of_untied [WeakOrder less]
    (hs : OrderedBelow (Precedes less) (view d (S.items s)) (S.items s).size i)
    (hu : Untied less (S.items s).toList) : swapsLeaves S (oriented less i) s i := by
  generalize hr : oriented less i = r
  fun_induction swapsLeaves S r s i with
  | case1 => rfl
  | case2 s m hm hlt =>
    subst hr
    generalize hp : (m - 1) / 2 = i at *
    have hbest : Best (Precedes less) (view d (S.items s)) (S.items s).size i m :=
      best_of_findChildOrGrandchild less d hm
    have hc : IsChild i m := by
      rcases hbest.near with hc | ⟨p, hp', hc⟩
      · exact hc
      · have := hp'.lt
        rw [hc.parent] at hp
        omega
    rw [decide_eq_true_eq]
    by_contra hlt
    have hchild : IsChild m (2 * m + 1) := .inl rfl
    have hn : 2 * m + 1 < (S.items s).size := by omega
    have h₁ := hbest.best (2 * m + 1) (.inr ⟨m, hc, hchild⟩) hn
    have h₂ := hs m (.of_child hc) (Nat.ne_of_gt hc.lt) (2 * m + 1) (.of_child hchild) hn
    rw [MaxMin.better_child _ hc] at h₂
    rcases better_or_better (i := i) (hu.view (d := d) hn hbest.bound (by omega)) with h | h
    · exact h₁ h
    · exact h₂ h
  | case3 s i m hm hlt hp ih =>
    subst hr
    have hbest : Best (Precedes less) (view d (S.items s)) (S.items s).size i m :=
      best_of_findChildOrGrandchild less d hm
    have hin : i < (S.items s).size := hbest.index_lt
    rcases hbest.near with hc | ⟨p, hp', hc⟩
    · exact absurd hc.parent hp
    · have hx : Exchanged (Precedes less) (view d (S.items s))
        (view d (S.items (exchange S (oriented less i) s i m))) i p m := exchange_grandchild hp' hc hbest.bound
      exact ih (size_exchange S _ s i m ▸ hx.orderedBelow hp' hc hs)
        ((keptBySwaps_untied less).exchange hu hin hbest.bound) (oriented_grandchild hp' hc)
  | case4 => rfl

/-- The slice is in the order of a max-min heap. -/
def Heaped (less : ι → ι → Bool) (items : Array ι) : Prop :=
  ∀ d, Ordered (Precedes less) (view d items) items.size

theorem down_heaped [WeakOrder less]
    (h : ∀ d j, j ≠ i → OrderedAt (Precedes less) (view d (S.items s)) (S.items s).size j)
    (hl : swapsLeaves S (oriented less i) s i) : Heaped less (S.items (down S less s i)) := by
  intro d j
  rw [down_eq]
  have hsize : (S.items (trickle S (oriented less i) s i)).size = (S.items s).size :=
    (keptBySwaps_size _).trickle rfl
  have hsift := trickle_sifted (d := d) (fun j _ hne => h d j hne) hl
  rw [hsize]
  by_cases hj : Below i j
  · exact hsift.ordered j hj
  · exact hsift.orderedAt (h d j fun he => hj (he ▸ .refl)) hj

/-- The rounds of `Cleanup` swap with children only when they are leaves. -/
def heapifySwapsLeaves (S : Slots σ ι) (less : ι → ι → Bool) (s : σ) : Nat → Bool
  | 0 => true
  | k + 1 => swapsLeaves S (oriented less k) s k && heapifySwapsLeaves S less (down S less s k) k

/-- The order at the indices from `k` on. -/
def OrderedFrom (less : ι → ι → Bool) (items : Array ι) (k : Nat) : Prop :=
  ∀ d j, k ≤ j → OrderedAt (Precedes less) (view d items) items.size j

theorem OrderedFrom.down [WeakOrder less] {k : Nat} (h : OrderedFrom less (S.items s) (k + 1))
    (hl : swapsLeaves S (oriented less k) s k) : OrderedFrom less (S.items (down S less s k)) k := by
  intro d j hj
  rw [down_eq]
  have hsize : (S.items (trickle S (oriented less k) s k)).size = (S.items s).size :=
    (keptBySwaps_size _).trickle rfl
  have hsift := trickle_sifted (d := d) (fun j hb hne => h d j (by have := hb.le; omega)) hl
  rw [hsize]
  by_cases hb : Below k j
  · exact hsift.ordered j hb
  · have hne : j ≠ k := fun he => hb (he ▸ .refl)
    exact hsift.orderedAt (h d j (by omega)) hb

theorem heapify_heaped [WeakOrder less] : ∀ {s : σ} (k : Nat), OrderedFrom less (S.items s) k →
    heapifySwapsLeaves S less s k → Heaped less (S.items (heapify S less s k))
  | _, 0, h, _ => fun d j => h d j (Nat.zero_le j)
  | _, k + 1, h, hl => by
    simp only [heapifySwapsLeaves, Bool.and_eq_true] at hl
    exact heapify_heaped k (h.down hl.1) hl.2

theorem orderedFrom_half [WeakOrder less] (items : Array ι) : OrderedFrom less items (items.size / 2) := by
  intro d j hj
  exact (Sifted.leaf (by omega)).ordered j .refl

theorem heapifySwapsLeaves_of_untied [WeakOrder less] : ∀ {s : σ} (k : Nat), OrderedFrom less (S.items s) k →
    Untied less (S.items s).toList → heapifySwapsLeaves S less s k
  | _, 0, _, _ => rfl
  | s, k + 1, h, hu => by
    have hl : swapsLeaves S (oriented less k) s k := by
      cases hempty : (S.items s)[0]? with
      | none =>
        rw [swapsLeaves]
        split
        · rfl
        · rename_i hm
          have := (near_of_findChildOrGrandchild hm).2
          simp at hempty
          simp [hempty] at this
      | some d => exact swapsLeaves_of_untied (d := d) (fun j hb hne => h d j (by have := hb.le; omega)) hu
    simp only [heapifySwapsLeaves, Bool.and_eq_true]
    exact ⟨hl, heapifySwapsLeaves_of_untied k (h.down hl) ((keptBySwaps_untied less).down hu)⟩

/-! ## Up -/

theorem bubble_ordered [WeakOrder less] (h : Bubbling (Precedes less) (view d (S.items s)) (S.items s).size i)
    (hi : i < (S.items s).size) :
    Ordered (Precedes less) (view d (S.items (bubble S (oriented less i) s i))) (S.items s).size := by
  generalize hr : oriented less i = r
  fun_induction bubble S r s i with
  | case1 s i p hp => exact h.ordered_top hp
  | case2 s i p hp g hlt ih =>
    subst hr
    have hpi : IsChild p i := MaxMin.isChild_parent (by omega)
    have hgp : IsChild g p := MaxMin.isChild_parent hp
    have hgn : g < (S.items s).size := by omega
    have hmove := h.move hi hpi hgp ((lessAt_iff hi hgn).mp hlt)
    rw [← view_swap hi hgn, ← S.items_swap] at hmove
    have hrec := ih (by rwa [size_swap]) (by simpa using hgn) (oriented_grandchild hgp hpi).symm
    rwa [size_swap] at hrec
  | case3 s i p hp g hlt =>
    subst hr
    have hpi : IsChild p i := MaxMin.isChild_parent (by omega)
    have hgp : IsChild g p := MaxMin.isChild_parent hp
    exact h.ordered_stop hi hpi hgp fun hb => hlt ((lessAt_iff hi (by omega)).mpr hb)

theorem lessAt_flipped (items : Array ι) (j k : Nat) : lessAt (flipped less) items j k = lessAt less items k j := by
  unfold lessAt flipped
  cases items[j]? <;> cases items[k]? <;> rfl

theorem up_eq {p : Nat} (hp : IsChild p i) : up S less s i =
    if lessAt (oriented less p) (S.items s) i p then bubble S (oriented less p) (S.swap s i p) p
    else bubble S (oriented less i) s i := by
  have hlevel := MaxMin.isMinLevel_child hp
  unfold up oriented isMinLevel
  rw [if_neg (Nat.ne_of_gt (Nat.zero_lt_of_lt hp.lt))]
  simp only [hp.parent]
  cases hi : MaxMin.isMinLevel i with
  | true =>
    rw [hi] at hlevel
    simp only [Bool.eq_false_iff.mpr (show ¬MaxMin.isMinLevel p by simpa using hlevel), if_true]
    rfl
  | false =>
    rw [hi] at hlevel
    simp only [show MaxMin.isMinLevel p by simpa using hlevel, if_true, lessAt_flipped]
    rfl

theorem up_ordered [WeakOrder less] (h : Ordered (Precedes less) (view d (S.items s)) i)
    (hi : (S.items s).size = i + 1) :
    Ordered (Precedes less) (view d (S.items (up S less s i))) (S.items s).size := by
  by_cases h0 : i = 0
  · subst h0
    intro j k hk hn
    have := hk.le
    rw [show j = 0 by omega, show k = 0 by omega]
    exact irrefl_of _ _
  · have hp : IsChild ((i - 1) / 2) i := MaxMin.isChild_parent h0
    have hin : i < (S.items s).size := by omega
    have hpn : (i - 1) / 2 < (S.items s).size := by omega
    rw [up_eq hp]
    split
    · rename_i hlt
      have hpush := Bubbling.push_swap h hp ((lessAt_iff hin hpn).mp hlt)
      rw [← hi, ← view_swap hin hpn, ← S.items_swap] at hpush
      have hord := bubble_ordered (by rwa [size_swap]) (by simpa using hpn)
      rwa [size_swap] at hord
    · rename_i hlt
      have hpush := Bubbling.push h hp fun hb => hlt ((lessAt_iff hin hpn).mpr hb)
      rw [← hi] at hpush
      exact bubble_ordered hpush hin

end

end

end InferenceScheduler.Queue
