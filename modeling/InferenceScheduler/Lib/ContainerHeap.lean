/-
Go's `container/heap`: a binary heap in a slice, least item first, over any
state with a `heap.Interface`.

Both loops repair the order around one node: `Loose` says that it holds away
from the node and across it. What a collection keeps on its own account follows
from `Swapped`: the loops do nothing but swap.
-/
import InferenceScheduler.Lib.MaxMin

namespace InferenceScheduler.ContainerHeap

open MaxMin (swapAt swapAt_left swapAt_right swapAt_of_ne getElem?_swapIfInBounds not_trans not_of_lt)

/-! ## The package -/

/-- `Len` and `Less` read the items; `Pop` returns the last of them. -/
structure Interface (σ α : Type*) where
  items : σ → Array α
  swap : σ → Nat → Nat → σ
  push : σ → α → σ
  pop : σ → σ
  items_swap : ∀ s i j, items (swap s i j) = (items s).swapIfInBounds i j
  items_push : ∀ s x, items (push s x) = (items s).push x
  items_pop : ∀ s, items (pop s) = (items s).pop

section Functions

variable {σ α : Type*} [Inhabited α] (H : Interface σ α) (lt : α → α → Prop) [DecidableRel lt]

/-- At the root the parent's index is the node's own: Go rounds `(0 - 1) / 2` to zero. -/
def up (s : σ) (j : Nat) : σ :=
  let i := (j - 1) / 2
  if i = j ∨ ¬lt (H.items s)[j]! (H.items s)[i]! then s else up (H.swap s i j) i
termination_by j
decreasing_by omega

/-- The child the loop of `down` compares with. -/
def lesserChild (items : Array α) (i n : Nat) : Nat :=
  let j₁ := 2 * i + 1
  let j₂ := j₁ + 1
  if j₂ < n ∧ lt items[j₂]! items[j₁]! then j₂ else j₁

theorem lt_lesserChild (items : Array α) (i n : Nat) : i < lesserChild lt items i n := by
  simp only [lesserChild]
  split <;> omega

/-- The loop of `down`, and the index it stops at. -/
def sink (s : σ) (i n : Nat) : σ × Nat :=
  if n ≤ 2 * i + 1 then (s, i)
  else
    let j := lesserChild lt (H.items s) i n
    if lt (H.items s)[j]! (H.items s)[i]! then sink (H.swap s i j) j n else (s, i)
termination_by n - i
decreasing_by
  have := lt_lesserChild lt (H.items s) i n
  omega

/-- `down`: whether the item has moved. -/
def down (s : σ) (i₀ n : Nat) : σ × Bool :=
  let r := sink H lt s i₀ n
  (r.1, decide (i₀ < r.2))

/-- `Interface.Pop` with the item it returns; it panics on an empty slice. -/
def popLast (s : σ) : Option (α × σ) := (H.items s).back?.map fun x => (x, H.pop s)

/-- `heap.Push`. -/
def push (s : σ) (x : α) : σ :=
  let s := H.push s x
  up H lt s ((H.items s).size - 1)

/-- `heap.Pop`; the swap panics on an empty slice. -/
def pop (s : σ) : Option (α × σ) :=
  if (H.items s).size = 0 then none
  else
    let n := (H.items s).size - 1
    popLast H (down H lt (H.swap s 0 n) 0 n).1

/-- The swaps of `heap.Remove`. -/
def removeSwaps (s : σ) (i : Nat) : σ :=
  let n := (H.items s).size - 1
  if n = i then s
  else
    let r := down H lt (H.swap s i n) i n
    if r.2 then r.1 else up H lt r.1 i

/-- `heap.Remove`. An index outside the slice makes the swap panic, or `Pop`. -/
def remove (s : σ) (i : Int) : Option (α × σ) :=
  if 0 ≤ i ∧ i < (H.items s).size then popLast H (removeSwaps H lt s i.toNat) else none

end Functions

/-! ## Swaps -/

section Swaps

variable {σ α : Type*} {H : Interface σ α} {s s' : σ}

/-- Swaps of entries below `n` lead from one state to the other. -/
inductive Swapped (H : Interface σ α) (n : Nat) (s : σ) : σ → Prop
  | refl : Swapped H n s s
  | swap {s' : σ} {i j : Nat} : Swapped H n s s' → i < n → j < n → Swapped H n s (H.swap s' i j)

variable {n k : Nat}

theorem Swapped.trans {s'' : σ} (h : Swapped H n s s') (h' : Swapped H n s' s'') : Swapped H n s s'' := by
  induction h' with
  | refl => exact h
  | swap _ hi hj ih => exact ih.swap hi hj

theorem Swapped.mono {m : Nat} (h : Swapped H m s s') (hmn : m ≤ n) : Swapped H n s s' := by
  induction h with
  | refl => exact .refl
  | swap _ hi hj ih => exact ih.swap (Nat.lt_of_lt_of_le hi hmn) (Nat.lt_of_lt_of_le hj hmn)

/-- **What every swap keeps, the functions of the package keep.** -/
theorem Swapped.keeps {P : σ → Prop} (h : Swapped H n s s') (hs : P s)
    (hswap : ∀ s i j, P s → i < n → j < n → P (H.swap s i j)) : P s' := by
  induction h with
  | refl => exact hs
  | swap _ hi hj ih => exact hswap _ _ _ ih hi hj

theorem Swapped.size (h : Swapped H n s s') : (H.items s').size = (H.items s).size :=
  h.keeps (P := fun t => (H.items t).size = (H.items s).size) rfl fun t i j ht _ _ => by
    rw [H.items_swap, Array.size_swapIfInBounds, ht]

variable [Inhabited α]

/-- The slice as a sequence. -/
def seq (items : Array α) (k : Nat) : α := items[k]!

theorem seq_congr {xs ys : Array α} {l : Nat} (h : xs[k]? = ys[l]?) : seq xs k = seq ys l := by
  simp only [seq, getElem!_def, h]

theorem seq_eq {items : Array α} {x : α} (h : items[k]? = some x) : seq items k = x := by
  simp only [seq, getElem!_def, h]

theorem seq_swap (items : Array α) {i j : Nat} (hi : i < items.size) (hj : j < items.size) :
    seq (items.swapIfInBounds i j) = swapAt (seq items) i j := by
  funext k
  have hk : (items.swapIfInBounds i j)[k]? = if k = i then items[j]? else if k = j then items[i]? else items[k]? :=
    getElem?_swapIfInBounds hi hj
  unfold swapAt
  split
  · exact seq_congr (by rw [hk, if_pos ‹_›])
  · rw [if_neg ‹_›] at hk
    split
    · exact seq_congr (by rw [hk, if_pos ‹_›])
    · exact seq_congr (by rw [hk, if_neg ‹_›])

theorem Swapped.frame (h : Swapped H n s s') (hn : n ≤ (H.items s).size) (hk : n ≤ k) :
    seq (H.items s') k = seq (H.items s) k := by
  induction h with
  | refl => rfl
  | @swap s' i j h hi hj ih =>
    have hsize := h.size
    rw [H.items_swap, seq_swap _ (by omega) (by omega), swapAt_of_ne (by omega) (by omega), ih]

end Swaps

/-! ## The order -/

section Order

variable {α : Type*} {lt : α → α → Prop} {a : Nat → α} {n i j : Nat}

/-- No entry comes before its parent. -/
def Ordered (lt : α → α → Prop) (a : Nat → α) (n : Nat) : Prop :=
  ∀ c, 0 < c → c < n → ¬lt (a c) (a ((c - 1) / 2))

/-- The order at a node, towards its parent. -/
def BelowParent (lt : α → α → Prop) (a : Nat → α) (i : Nat) : Prop := 0 < i → ¬lt (a i) (a ((i - 1) / 2))

/-- The order at a node, towards its children. -/
def AboveChildren (lt : α → α → Prop) (a : Nat → α) (n i : Nat) : Prop :=
  ∀ c, 0 < c → c < n → (c - 1) / 2 = i → ¬lt (a c) (a i)

/-- The order holds away from `i`, and between its children and its parent. -/
structure Loose (lt : α → α → Prop) (a : Nat → α) (n i : Nat) : Prop where
  away : ∀ c, 0 < c → c < n → c ≠ i → (c - 1) / 2 ≠ i → ¬lt (a c) (a ((c - 1) / 2))
  across : 0 < i → ∀ c, 0 < c → c < n → (c - 1) / 2 = i → ¬lt (a c) (a ((i - 1) / 2))

theorem Loose.ordered (h : Loose lt a n i) (hp : BelowParent lt a i) (hc : AboveChildren lt a n i) :
    Ordered lt a n := by
  intro c hc0 hcn
  by_cases hci : c = i
  · subst hci
    exact hp hc0
  · by_cases hpi : (c - 1) / 2 = i
    · rw [hpi]
      exact hc c hc0 hcn hpi
    · exact h.away c hc0 hcn hci hpi

theorem Ordered.mono {m : Nat} (h : Ordered lt a n) (hm : m ≤ n) : Ordered lt a m :=
  fun c hc hcm => h c hc (Nat.lt_of_lt_of_le hcm hm)

theorem Ordered.congr {b : Nat → α} (h : Ordered lt a n) (hb : ∀ k < n, b k = a k) : Ordered lt b n := by
  intro c hc hcn
  rw [hb c hcn, hb _ (by omega)]
  exact h c hc hcn

variable [IsStrictWeakOrder α lt]

/-- **The first entry comes before none of the others.** -/
theorem Ordered.root (h : Ordered lt a n) : ∀ {c : Nat}, c < n → ¬lt (a c) (a 0) := by
  intro c
  induction c using Nat.strongRecOn with
  | ind c ih =>
    intro hc
    by_cases h0 : c = 0
    · subst h0
      exact irrefl_of lt (a 0)
    · exact not_trans (h c (by omega) hc) (ih ((c - 1) / 2) (by omega) (by omega))

theorem Ordered.loose {b : Nat → α} (h : Ordered lt a n) (hb : ∀ k < n, k ≠ i → b k = a k) : Loose lt b n i := by
  constructor
  · intro c hc hcn hci hpi
    rw [hb c hcn hci, hb _ (by omega) hpi]
    exact h c hc hcn
  · intro hi c hc hcn hp
    rw [hb c hcn (by omega), hb _ (by omega) (by omega)]
    have hparent := h i hi (by omega)
    have hchild := h c hc hcn
    rw [hp] at hchild
    exact not_trans hchild hparent

theorem Loose.rise (h : Loose lt a n i) (hi : 0 < i) (hn : i < n)
    (hlt : lt (a i) (a ((i - 1) / 2))) :
    Loose lt (swapAt a ((i - 1) / 2) i) n ((i - 1) / 2) ∧
      AboveChildren lt (swapAt a ((i - 1) / 2) i) n ((i - 1) / 2) := by
  obtain ⟨p, hp⟩ : ∃ p, p = (i - 1) / 2 := ⟨_, rfl⟩
  rw [← hp] at hlt ⊢
  have hpi : p < i := by omega
  -- the other children of the parent
  have hsibling : ∀ c, 0 < c → c < n → (c - 1) / 2 = p → c ≠ i → ¬lt (a c) (a p) := by
    intro c hc0 hcn hcp hci
    have := h.away c hc0 hcn hci (by omega)
    rwa [hcp] at this
  refine ⟨⟨fun c hc0 hcn hcp hpp => ?_, fun hp0 c hc0 hcn hcp => ?_⟩, fun c hc0 hcn hcp => ?_⟩
  · have hci : c ≠ i := fun he => hpp (he ▸ hp.symm)
    rw [swapAt_of_ne hcp hci]
    by_cases hchild : (c - 1) / 2 = i
    · rw [hchild, swapAt_right]
      have := h.across hi c hc0 hcn hchild
      rwa [← hp] at this
    · rw [swapAt_of_ne hpp hchild]
      exact h.away c hc0 hcn hci hchild
  · have hparent : ¬lt (a p) (a ((p - 1) / 2)) := h.away p hp0 (by omega) (by omega) (by omega)
    rw [swapAt_of_ne (k := (p - 1) / 2) (by omega) (by omega)]
    by_cases hci : c = i
    · rw [hci, swapAt_right]
      exact hparent
    · rw [swapAt_of_ne (by omega) hci]
      exact not_trans (hsibling c hc0 hcn hcp hci) hparent
  · rw [swapAt_left]
    by_cases hci : c = i
    · rw [hci, swapAt_right]
      exact not_of_lt hlt
    · rw [swapAt_of_ne (by omega) hci]
      intro hlt'
      exact hsibling c hc0 hcn hcp hci (trans_of lt hlt' hlt)

theorem Loose.sink (h : Loose lt a n i) (hj : (j - 1) / 2 = i) (hj0 : 0 < j) (hjn : j < n)
    (hleast : ∀ c, 0 < c → c < n → (c - 1) / 2 = i → ¬lt (a c) (a j)) (hlt : lt (a j) (a i)) :
    Loose lt (swapAt a i j) n j ∧ BelowParent lt (swapAt a i j) j := by
  have hij : i < j := by omega
  refine ⟨⟨fun c hc0 hcn hcj hpj => ?_, fun _ c hc0 hcn hpj => ?_⟩, fun _ => ?_⟩
  · by_cases hci : c = i
    · subst hci
      rw [swapAt_left, swapAt_of_ne (by omega) hpj]
      exact h.across hc0 j hj0 hjn hj
    · rw [swapAt_of_ne hci hcj]
      by_cases hpi : (c - 1) / 2 = i
      · rw [hpi, swapAt_left]
        exact hleast c hc0 hcn hpi
      · rw [swapAt_of_ne hpi hpj]
        exact h.away c hc0 hcn hci hpi
  · rw [hj, swapAt_left, swapAt_of_ne (by omega) (by omega)]
    have := h.away c hc0 hcn (by omega) (by omega)
    rwa [hpj] at this
  · rw [swapAt_right, hj, swapAt_left]
    exact not_of_lt hlt

end Order

/-! ## What the functions give -/

section Functions

variable {σ α : Type*} [Inhabited α] {H : Interface σ α} {lt : α → α → Prop} {s s' : σ} {n i : Nat} {x : α}

/-- What `heap.Remove` and `heap.Pop` do: swaps bring the item to the end. -/
structure Taken (H : Interface σ α) (s : σ) (x : α) (s' : σ) : Prop where
  swapped : Swapped H (H.items s).size s s'
  last : (H.items s').back? = some x

theorem Taken.intro (hi : i < (H.items s).size) (hn : n = (H.items s).size - 1)
    (hs : Swapped H n (H.swap s i n) s') : Taken H s (seq (H.items s) i) s' := by
  have hsize : (H.items (H.swap s i n)).size = (H.items s).size := by rw [H.items_swap, Array.size_swapIfInBounds]
  have hlast : seq (H.items s') n = seq (H.items s) i := by
    rw [hs.frame (by omega) (Nat.le_refl n), H.items_swap, seq_swap _ hi (by omega), swapAt_right]
  refine ⟨(Swapped.refl.swap hi (by omega)).trans (hs.mono (by omega)), ?_⟩
  have hend : (H.items s').size - 1 = n := by
    rw [hs.size, hsize, hn]
  obtain ⟨y, hy⟩ : ∃ y, (H.items s')[n]? = some y := by
    refine ⟨_, Array.getElem?_eq_getElem ?_⟩
    rw [hs.size]
    omega
  rw [Array.back?_eq_getElem?, hend, hy, ← hlast, seq_eq hy]

omit [Inhabited α] in
theorem Taken.popLast (h : Taken H s x s') : popLast H s' = some (x, H.pop s') := by
  rw [ContainerHeap.popLast, h.last]
  rfl

theorem Taken.ordered (h : Taken H s x s') (ho : Ordered lt (seq (H.items s')) ((H.items s).size - 1)) :
    Ordered lt (seq (H.items (H.pop s'))) (H.items (H.pop s')).size := by
  have hsize : (H.items (H.pop s')).size = (H.items s).size - 1 := by
    rw [H.items_pop, Array.size_pop, h.swapped.size]
  rw [hsize]
  refine ho.congr fun k hk => seq_congr ?_
  rw [H.items_pop, Array.getElem?_pop, if_pos (by rw [h.swapped.size]; omega)]

theorem loose_swap_last [IsStrictWeakOrder α lt] (h : Ordered lt (seq (H.items s)) (H.items s).size)
    (hi : i < (H.items s).size) (hn : n = (H.items s).size - 1) : Loose lt (seq (H.items (H.swap s i n))) n i := by
  rw [H.items_swap, seq_swap _ hi (by omega)]
  exact (h.mono (m := n) (by omega)).loose fun k hk hki => swapAt_of_ne hki (by omega)

variable [DecidableRel lt]

/-! ### The loops -/

theorem up_swapped (hi : i < n) : Swapped H n s (up H lt s i) := by
  fun_induction up H lt s i with
  | case1 s j p hstop => exact .refl
  | case2 s j p hgo ih => exact (Swapped.refl.swap (by omega) hi).trans (ih (by omega))

theorem up_ordered [IsStrictWeakOrder α lt] (hl : Loose lt (seq (H.items s)) n i)
    (hc : AboveChildren lt (seq (H.items s)) n i) (hi : i < n) (hn : n ≤ (H.items s).size) :
    Ordered lt (seq (H.items (up H lt s i))) n := by
  fun_induction up H lt s i with
  | case1 s j p hstop => exact hl.ordered (fun h0 => hstop.resolve_left (by omega)) hc
  | case2 s j p hgo ih =>
    rw [not_or, not_not] at hgo
    have hp : p ≠ j := hgo.1
    have hswap := seq_swap (H.items s) (i := p) (j := j) (by omega) (by omega)
    obtain ⟨hl', hc'⟩ := hl.rise (by omega) hi hgo.2
    rw [← hswap, ← H.items_swap] at hl' hc'
    exact ih hl' hc' (by omega) (by rwa [H.items_swap, Array.size_swapIfInBounds])

variable (lt) in
theorem lesserChild_bounds (items : Array α) (h : ¬n ≤ 2 * i + 1) :
    (lesserChild lt items i n - 1) / 2 = i ∧ lesserChild lt items i n < n := by
  simp only [lesserChild]
  split
  · rename_i hr
    exact ⟨by omega, hr.1⟩
  · exact ⟨by omega, by omega⟩

theorem lesserChild_least [IsStrictWeakOrder α lt] (items : Array α) :
    ∀ c, 0 < c → c < n → (c - 1) / 2 = i → ¬lt (seq items c) (seq items (lesserChild lt items i n)) := by
  have hchild : ∀ c, 0 < c → (c - 1) / 2 = i → c = 2 * i + 1 ∨ c = 2 * i + 1 + 1 := by omega
  intro c hc0 hcn hp hlt
  simp only [lesserChild] at hlt
  split at hlt
  · rename_i hr
    rcases hchild c hc0 hp with rfl | rfl
    · exact not_of_lt hr.2 hlt
    · exact irrefl_of lt _ hlt
  · rename_i hr
    rcases hchild c hc0 hp with rfl | rfl
    · exact irrefl_of lt _ hlt
    · exact hr ⟨hcn, hlt⟩

theorem sink_swapped : Swapped H n s (sink H lt s i n).1 := by
  fun_induction sink H lt s i n with
  | case1 s i hleaf => exact .refl
  | case2 s i hnode j hlt ih =>
    obtain ⟨hj, hjn⟩ := lesserChild_bounds lt (H.items s) hnode
    exact (Swapped.refl.swap (by omega) hjn).trans ih
  | case3 s i hnode j hge => exact .refl

/-- After `down` the order is in doubt only towards the parent of where it stops. -/
structure Sunk (lt : α → α → Prop) (H : Interface σ α) (n : Nat) (s : σ) (i : Nat) (r : σ × Nat) : Prop where
  le : i ≤ r.2
  loose : Loose lt (seq (H.items r.1)) n r.2
  above : AboveChildren lt (seq (H.items r.1)) n r.2
  below : BelowParent lt (seq (H.items s)) i ∨ i < r.2 → BelowParent lt (seq (H.items r.1)) r.2

theorem sink_spec [IsStrictWeakOrder α lt] (hl : Loose lt (seq (H.items s)) n i) (hn : n ≤ (H.items s).size) :
    Sunk lt H n s i (sink H lt s i n) := by
  fun_induction sink H lt s i n with
  | case1 s i hleaf =>
    exact ⟨Nat.le_refl i, hl, fun c hc0 hcn hp => by omega, fun h => h.resolve_right (Nat.lt_irrefl i)⟩
  | case2 s i hnode j hlt ih =>
    obtain ⟨hj, hjn⟩ := lesserChild_bounds lt (H.items s) hnode
    have hij : i < j := lt_lesserChild lt (H.items s) i n
    have hswap := seq_swap (H.items s) (i := i) (j := j) (by omega) (by omega)
    obtain ⟨hl', hp'⟩ := hl.sink hj (by omega) hjn (lesserChild_least (H.items s)) hlt
    rw [← hswap, ← H.items_swap] at hl' hp'
    have hsunk := ih hl' (by rwa [H.items_swap, Array.size_swapIfInBounds])
    exact ⟨Nat.le_trans (Nat.le_of_lt hij) hsunk.le, hsunk.loose, hsunk.above, fun _ => hsunk.below (.inl hp')⟩
  | case3 s i hnode j hge =>
    exact ⟨Nat.le_refl i, hl, fun c hc0 hcn hp => not_trans (lesserChild_least (H.items s) c hc0 hcn hp) hge,
      fun h => h.resolve_right (Nat.lt_irrefl i)⟩

/-! ### The functions -/

variable (lt) in
theorem push_swapped : Swapped H ((H.items s).size + 1) (H.push s x) (push H lt s x) := by
  simp only [push, H.items_push, Array.size_push, Nat.add_sub_cancel]
  exact up_swapped (Nat.lt_succ_self _)

variable (lt) in
/-- **`heap.Push` keeps the order.** -/
theorem push_ordered [IsStrictWeakOrder α lt] (h : Ordered lt (seq (H.items s)) (H.items s).size) :
    Ordered lt (seq (H.items (push H lt s x))) ((H.items s).size + 1) := by
  have hold : ∀ k < (H.items s).size, seq (H.items (H.push s x)) k = seq (H.items s) k := by
    intro k hk
    exact seq_congr (by rw [H.items_push, Array.getElem?_push, if_neg (by omega)])
  have hl : Loose lt (seq (H.items (H.push s x))) ((H.items s).size + 1) (H.items s).size :=
    ⟨fun c hc0 hcn hci _ => h.congr hold c hc0 (by omega), fun _ c hc0 hcn hp => by omega⟩
  have hsize : (H.items (H.push s x)).size = (H.items s).size + 1 := by rw [H.items_push, Array.size_push]
  have hspec := up_ordered hl (fun c hc0 hcn hp => by omega) (Nat.lt_succ_self _) (Nat.le_of_eq hsize.symm)
  simpa only [push, hsize, Nat.add_sub_cancel] using hspec

variable (lt) in
theorem removeSwaps_taken (hx : (H.items s)[i]? = some x) : Taken H s x (removeSwaps H lt s i) := by
  have hi : i < (H.items s).size := (Array.getElem?_eq_some_iff.mp hx).1
  obtain ⟨n, hn⟩ : ∃ n, n = (H.items s).size - 1 := ⟨_, rfl⟩
  simp only [removeSwaps, down, ← hn]
  split
  · rename_i hni
    refine ⟨.refl, ?_⟩
    rw [Array.back?_eq_getElem?, ← hn, hni, hx]
  · rename_i hni
    rw [← seq_eq hx]
    refine .intro hi hn ?_
    by_cases hmoved : i < (sink H lt (H.swap s i n) i n).2
    · rw [if_pos (decide_eq_true hmoved)]
      exact sink_swapped
    · rw [if_neg (by simpa only [decide_eq_true_eq] using hmoved)]
      exact sink_swapped.trans (up_swapped (by omega))

theorem removeSwaps_ordered [IsStrictWeakOrder α lt] (h : Ordered lt (seq (H.items s)) (H.items s).size)
    (hi : i < (H.items s).size) : Ordered lt (seq (H.items (removeSwaps H lt s i))) ((H.items s).size - 1) := by
  obtain ⟨n, hn⟩ : ∃ n, n = (H.items s).size - 1 := ⟨_, rfl⟩
  simp only [removeSwaps, down, ← hn]
  split
  · exact h.mono (by omega)
  · rename_i hni
    have hsize : (H.items (H.swap s i n)).size = (H.items s).size := by
      rw [H.items_swap, Array.size_swapIfInBounds]
    have hsunk := sink_spec (loose_swap_last h hi hn) (by omega)
    by_cases hmoved : i < (sink H lt (H.swap s i n) i n).2
    · rw [if_pos (decide_eq_true hmoved)]
      exact hsunk.loose.ordered (hsunk.below (.inr hmoved)) hsunk.above
    · -- the item is not too late for its place, but may be too early
      rw [if_neg (by simpa only [decide_eq_true_eq] using hmoved)]
      have hsame : (sink H lt (H.swap s i n) i n).2 = i := by
        have := hsunk.le
        omega
      have hloose := hsunk.loose
      have habove := hsunk.above
      rw [hsame] at hloose habove
      exact up_ordered hloose habove (by omega) (by rw [sink_swapped.size]; omega)

variable (lt) in
/-- **`heap.Remove` takes the item at an index**, and keeps the order. -/
theorem remove_spec (hx : (H.items s)[i]? = some x) :
    ∃ s', Taken H s x s' ∧ remove H lt s i = some (x, H.pop s') ∧
      (IsStrictWeakOrder α lt → Ordered lt (seq (H.items s)) (H.items s).size →
        Ordered lt (seq (H.items (H.pop s'))) (H.items (H.pop s')).size) := by
  have hi : i < (H.items s).size := (Array.getElem?_eq_some_iff.mp hx).1
  have htaken := removeSwaps_taken lt hx
  refine ⟨_, htaken, ?_, fun _ ho => htaken.ordered (removeSwaps_ordered ho hi)⟩
  rw [remove, if_pos (by omega), Int.toNat_natCast, htaken.popLast]

variable (lt) in
/-- **`heap.Pop` takes the first item**, and keeps the order. -/
theorem pop_spec (hx : (H.items s)[0]? = some x) :
    ∃ s', Taken H s x s' ∧ pop H lt s = some (x, H.pop s') ∧
      (IsStrictWeakOrder α lt → Ordered lt (seq (H.items s)) (H.items s).size →
        Ordered lt (seq (H.items (H.pop s'))) (H.items (H.pop s')).size) := by
  have hpos : 0 < (H.items s).size := (Array.getElem?_eq_some_iff.mp hx).1
  obtain ⟨n, hn⟩ : ∃ n, n = (H.items s).size - 1 := ⟨_, rfl⟩
  have htaken : Taken H s x (down H lt (H.swap s 0 n) 0 n).1 := by
    rw [← seq_eq hx]
    exact .intro hpos hn sink_swapped
  refine ⟨_, htaken, ?_, fun _ ho => htaken.ordered ?_⟩
  · rw [pop, if_neg (by omega), ← hn, htaken.popLast]
  · have hsize : (H.items (H.swap s 0 n)).size = (H.items s).size := by
      rw [H.items_swap, Array.size_swapIfInBounds]
    have hsunk := sink_spec (loose_swap_last ho hpos hn) (by omega)
    rw [← hn]
    exact hsunk.loose.ordered (hsunk.below (.inl fun h0 => absurd h0 (Nat.lt_irrefl 0))) hsunk.above

end Functions

end InferenceScheduler.ContainerHeap
