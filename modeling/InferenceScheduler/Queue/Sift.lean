/-
The loops of the max-min heap (`framework/plugins/queue/maxminheap.go`): an item
bubbles up along grandparents, or trickles down along grandchildren. They touch
the heap only by reading its items and by `swap`, so they are written over any
state with the two (`Slots`). `Less(x, y)` says that `x` has the higher
priority; the min levels are the max levels with `Less` turned around.
-/
import InferenceScheduler.Lib.MaxMin

namespace InferenceScheduler.Queue

/-- A state with a slice of items and a swap of two of them. -/
structure Slots (σ ι : Type*) where
  items : σ → Array ι
  swap : σ → Nat → Nat → σ
  items_swap : ∀ s i j, items (swap s i j) = (items s).swapIfInBounds i j

section

variable {σ ι : Type*}

/-- `Less` on the items at two indices below the length. -/
def lessAt (less : ι → ι → Bool) (items : Array ι) (i j : Nat) : Bool :=
  match items[i]?, items[j]? with
  | some x, some y => less x y
  | _, _ => false

/-- `Less` as a min level reads it. -/
def flipped (less : ι → ι → Bool) (x y : ι) : Bool := less y x

/-- The level is `⌊log₂ (i + 1)⌋`; the source's logarithm of a `float64` is exact on
slices that fit in memory. -/
def isMinLevel (i : Nat) : Bool := MaxMin.isMinLevel i

/-! ## Up -/

section

variable (S : Slots σ ι) (less : ι → ι → Bool)

/-- The loop of `upMax` and `upMin`. -/
def bubble (less : ι → ι → Bool) (s : σ) (i : Nat) : σ :=
  let parentIndex := (i - 1) / 2
  if parentIndex = 0 then s
  else
    let grandparentIndex := (parentIndex - 1) / 2
    if lessAt less (S.items s) i grandparentIndex then bubble less (S.swap s i grandparentIndex) grandparentIndex
    else s
termination_by i
decreasing_by omega

def upMax (s : σ) (i : Nat) : σ := bubble S less s i

def upMin (s : σ) (i : Nat) : σ := bubble S (flipped less) s i

def up (s : σ) (i : Nat) : σ :=
  if i = 0 then s
  else
    let parentIndex := (i - 1) / 2
    if isMinLevel i then
      if lessAt less (S.items s) i parentIndex then upMax S less (S.swap s i parentIndex) parentIndex
      else upMin S less s i
    else
      if lessAt less (S.items s) parentIndex i then upMin S less (S.swap s i parentIndex) parentIndex
      else upMax S less s i

/-! ## Down -/

/-- The grandchildren from `j` on, as far as there are any. -/
def bestGrandchild (less : ι → ι → Bool) (items : Array ι) (m j : Nat) : Nat :=
  if j < items.size ∧ lessAt less items j m then j else m

/-- `findLargestChildOrGrandchild` and `findSmallestChildOrGrandchild`; `none`
is their -1. -/
def findChildOrGrandchild (less : ι → ι → Bool) (items : Array ι) (i : Nat) : Option Nat :=
  let leftChild := 2 * i + 1
  if items.size ≤ leftChild then none
  else
    let rightChild := 2 * i + 2
    let m := if rightChild < items.size ∧ lessAt less items rightChild leftChild then rightChild else leftChild
    let grandchildStart := 2 * leftChild + 1
    some ((List.range' grandchildStart 4).foldl (bestGrandchild less items) m)

theorem foldl_bestGrandchild_bounds {less : ι → ι → Bool} {items : Array ι} : ∀ (js : List Nat) {m : Nat},
    m < items.size → js.foldl (bestGrandchild less items) m < items.size ∧
      (js.foldl (bestGrandchild less items) m = m ∨ js.foldl (bestGrandchild less items) m ∈ js)
  | [], _, hm => ⟨hm, .inl rfl⟩
  | j :: js, m, hm => by
    rw [List.foldl_cons]
    by_cases hj : j < items.size ∧ lessAt less items j m
    · rw [bestGrandchild, if_pos hj]
      obtain ⟨hb, he | he⟩ := foldl_bestGrandchild_bounds js hj.1
      · exact ⟨hb, .inr (List.mem_cons.mpr (.inl he))⟩
      · exact ⟨hb, .inr (List.mem_cons_of_mem _ he)⟩
    · rw [bestGrandchild, if_neg hj]
      obtain ⟨hb, he | he⟩ := foldl_bestGrandchild_bounds js hm
      · exact ⟨hb, .inl he⟩
      · exact ⟨hb, .inr (List.mem_cons_of_mem _ he)⟩

theorem mem_grandchildren {i j : Nat} :
    j ∈ List.range' (2 * (2 * i + 1) + 1) 4 ↔ ∃ c, MaxMin.IsChild i c ∧ MaxMin.IsChild c j := by
  simp only [List.mem_range'_1, MaxMin.IsChild]
  constructor
  · intro h
    by_cases hj : j < 4 * i + 5
    · exact ⟨2 * i + 1, .inl rfl, by omega⟩
    · exact ⟨2 * i + 2, .inr rfl, by omega⟩
  · rintro ⟨c, hc, hj⟩
    omega

theorem near_of_findChildOrGrandchild {less : ι → ι → Bool} {items : Array ι} {i m : Nat}
    (h : findChildOrGrandchild less items i = some m) : MaxMin.Near i m ∧ m < items.size := by
  simp only [findChildOrGrandchild] at h
  split at h
  · cases h
  · rename_i hsize
    rw [Option.some.injEq] at h
    have hchild : ∀ c, MaxMin.IsChild i c → c < items.size →
        (List.range' (2 * (2 * i + 1) + 1) 4).foldl (bestGrandchild less items) c = m →
        MaxMin.Near i m ∧ m < items.size := by
      intro c hc hn he
      obtain ⟨hb, hm | hm⟩ := foldl_bestGrandchild_bounds (List.range' (2 * (2 * i + 1) + 1) 4) hn
      · exact ⟨.inl (by rwa [← he, hm]), he ▸ hb⟩
      · exact ⟨.inr (mem_grandchildren.mp (he ▸ hm)), he ▸ hb⟩
    split at h
    · rename_i hr
      exact hchild _ (.inr rfl) hr.1 h
    · exact hchild _ (.inl rfl) (by omega) h

/-- The item at `i` is swapped with the one at `m` and, when `m` is a grandchild, that
one with its new parent if they are in the wrong order. -/
def exchange (less : ι → ι → Bool) (s : σ) (i m : Nat) : σ :=
  let s := S.swap s i m
  let parentOfM := (m - 1) / 2
  if parentOfM ≠ i ∧ lessAt less (S.items s) parentOfM m then S.swap s m parentOfM else s

theorem size_exchange (less : ι → ι → Bool) (s : σ) (i m : Nat) :
    (S.items (exchange S less s i m)).size = (S.items s).size := by
  unfold exchange
  dsimp only
  split <;> simp [S.items_swap]

/-- The loop of `downMax` and `downMin`. -/
def trickle (less : ι → ι → Bool) (s : σ) (i : Nat) : σ :=
  match _h : findChildOrGrandchild less (S.items s) i with
  | none => s
  | some m => if lessAt less (S.items s) m i then trickle less (exchange S less s i m) m else s
termination_by (S.items s).size - i
decreasing_by
  have hm := near_of_findChildOrGrandchild _h
  have hi := hm.1.below.le
  have hne := hm.1.ne
  rw [size_exchange]
  omega

def downMax (s : σ) (i : Nat) : σ := trickle S less s i

def downMin (s : σ) (i : Nat) : σ := trickle S (flipped less) s i

def down (s : σ) (i : Nat) : σ := if isMinLevel i then downMin S less s i else downMax S less s i

/-- The loop of `Cleanup` over the nodes below `k`, from the last to the
root. -/
def heapify (s : σ) : Nat → σ
  | 0 => s
  | k + 1 => heapify (down S less s k) k

end

/-! ## What swaps keep -/

section

variable {S : Slots σ ι} {less : ι → ι → Bool} {P : σ → Prop} {s : σ} {i : Nat}

@[simp] theorem size_swap (s : σ) (i j : Nat) : (S.items (S.swap s i j)).size = (S.items s).size := by
  rw [S.items_swap, Array.size_swapIfInBounds]

/-- A property that swaps below the length keep. -/
def KeptBySwaps (S : Slots σ ι) (P : σ → Prop) : Prop :=
  ∀ s i j, P s → i < (S.items s).size → j < (S.items s).size → P (S.swap s i j)

theorem KeptBySwaps.bubble (h : KeptBySwaps S P) (hs : P s) (hi : i < (S.items s).size) :
    P (bubble S less s i) := by
  fun_induction Queue.bubble S less s i with
  | case1 => exact hs
  | case2 s i p hp g hlt ih =>
    have hg : g < (S.items s).size := by omega
    exact ih (h s i g hs hi hg) (by simpa using hg)
  | case3 => exact hs

theorem KeptBySwaps.up (h : KeptBySwaps S P) (hs : P s) (hi : i < (S.items s).size) : P (up S less s i) := by
  have hp : (i - 1) / 2 < (S.items s).size := by omega
  have hswap := h s i ((i - 1) / 2) hs hi hp
  unfold Queue.up
  dsimp only
  split
  · exact hs
  · split
    · split
      · exact h.bubble hswap (by simpa using hp)
      · exact h.bubble hs hi
    · split
      · exact h.bubble hswap (by simpa using hp)
      · exact h.bubble hs hi

theorem KeptBySwaps.exchange (h : KeptBySwaps S P) {m : Nat} (hs : P s) (hi : i < (S.items s).size)
    (hm : m < (S.items s).size) : P (exchange S less s i m) := by
  have hswap := h s i m hs hi hm
  unfold Queue.exchange
  dsimp only
  split
  · exact h _ _ _ hswap (by simpa using hm) (by simp; omega)
  · exact hswap

theorem KeptBySwaps.trickle (h : KeptBySwaps S P) (hs : P s) : P (trickle S less s i) := by
  fun_induction Queue.trickle S less s i with
  | case1 => exact hs
  | case2 s i m hm hlt ih =>
    obtain ⟨hnear, hlt⟩ := near_of_findChildOrGrandchild hm
    exact ih (h.exchange hs (Nat.lt_of_le_of_lt hnear.below.le hlt) hlt)
  | case3 => exact hs

theorem KeptBySwaps.down (h : KeptBySwaps S P) (hs : P s) : P (down S less s i) := by
  unfold Queue.down
  split
  · exact h.trickle hs
  · exact h.trickle hs

theorem KeptBySwaps.heapify (h : KeptBySwaps S P) : ∀ {s : σ} (k : Nat), P s → P (heapify S less s k)
  | _, 0, hs => hs
  | _, k + 1, hs => KeptBySwaps.heapify h k (h.down hs)

theorem keptBySwaps_size (n : Nat) : KeptBySwaps S fun s => (S.items s).size = n :=
  fun s i j hs _ _ => (size_swap s i j).trans hs

end

end

end InferenceScheduler.Queue
