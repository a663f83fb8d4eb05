/-
What the loop of `Cleanup` makes of the order of a max-min heap when items may
be equivalent. Each call of `down` leaves everything from its index on in order
exactly when its rounds swap with children only when these are leaves
(`orderedFrom_down_iff`): a round that swaps with an inner child goes on at a
level of the other kind.
-/
import InferenceScheduler.Queue.Priority

namespace InferenceScheduler.Queue

open MaxMin (IsChild Below Near OrderedAt OrderedBelow better swapAt)

section

variable {σ τ ι : Type*} {S : Slots σ ι} {T : Slots τ ι} {s : σ} {t : τ} {less : ι → ι → Bool} {i m : Nat} {d : ι}

/-! ## What trickling down leaves alone -/

theorem exchange_confined (hnear : Near i m) (hm : m < (S.items s).size) :
    MaxMin.Confined (S.items s).size i (view d (S.items s)) (view d (S.items (exchange S less s i m))) := by
  have hi : i < (S.items s).size := Nat.lt_of_le_of_lt hnear.below.le hm
  have hview : view d (S.items (S.swap s i m)) = swapAt (view d (S.items s)) i m := by
    rw [S.items_swap, view_swap hi hm]
  have hfirst : MaxMin.Confined (S.items s).size i (view d (S.items s)) (view d (S.items (S.swap s i m))) := by
    rw [hview]
    exact .swap .refl hnear.below hi hm
  unfold exchange
  dsimp only
  split
  · have hparent : Below i ((m - 1) / 2) := hnear.below.parent hnear.ne (MaxMin.isChild_parent (by
      have := hnear.below.le
      have := hnear.ne
      omega))
    refine hfirst.trans .refl ?_
    rw [S.items_swap _ m, view_swap (by simpa using hm) (by simp; omega)]
    exact .swap hnear.below hparent hm (by omega)
  · exact hfirst

theorem exchange_top (hnear : Near i m) (hm : m < (S.items s).size) :
    view d (S.items (exchange S less s i m)) i = view d (S.items s) m := by
  have hi : i < (S.items s).size := Nat.lt_of_le_of_lt hnear.below.le hm
  have hne := hnear.ne
  have hview : view d (S.items (S.swap s i m)) = swapAt (view d (S.items s)) i m := by
    rw [S.items_swap, view_swap hi hm]
  unfold exchange
  dsimp only
  split
  · rename_i hp
    rw [S.items_swap _ m, view_swap (by simpa using hm) (by simp; omega),
      MaxMin.swapAt_of_ne hne.symm hp.1.symm, hview, MaxMin.swapAt_left]
  · rw [hview, MaxMin.swapAt_left]

theorem trickle_confined (d : ι) (s : σ) (i : Nat) :
    MaxMin.Confined (S.items s).size i (view d (S.items s)) (view d (S.items (trickle S less s i))) := by
  fun_induction trickle S less s i with
  | case1 => exact .refl
  | case2 s i m hm hlt ih =>
    obtain ⟨hnear, hn⟩ := near_of_findChildOrGrandchild hm
    rw [size_exchange] at ih
    exact (exchange_confined hnear hn).trans hnear.below ih
  | case3 => exact .refl

/-! ## A round that swaps with an inner child -/

/-- **Trickling on at a level of the other kind.** At a node with a child that
is better, in the order of the parent's level, the loop takes the item of the
node below that better one. -/
theorem trickle_not_orderedAt [WeakOrder less] (hc : IsChild i m) (hleft : 2 * m + 1 < (S.items s).size)
    (hbetter : better (Precedes less) i (view d (S.items s) (2 * m + 1)) (view d (S.items s) m)) :
    ¬OrderedAt (Precedes less) (view d (S.items (trickle S (oriented less i) s m))) (S.items s).size m := by
  obtain ⟨g, hg⟩ : ∃ g, findChildOrGrandchild (oriented less i) (S.items s) m = some g := by
    rw [findChildOrGrandchild, if_neg (by omega)]
    exact ⟨_, rfl⟩
  obtain ⟨hnear, hgn⟩ := near_of_findChildOrGrandchild hg
  have hmn : m < (S.items s).size := by omega
  have hchild : Near m (2 * m + 1) := .inl (.inl rfl)
  -- what is found is better too
  have hfound : better (Precedes less) i (view d (S.items s) g) (view d (S.items s) m) := by
    by_contra hnot
    exact MaxMin.not_trans (not_better_of_findChildOrGrandchild less d hg _ hchild hleft) hnot hbetter
  have hstep : trickle S (oriented less i) s m = trickle S (oriented less i) (exchange S (oriented less i) s m g) g := by
    rw [trickle_eq, hg]
    exact if_pos ((lessAt_iff hgn hmn).mpr hfound)
  have hconf : MaxMin.Confined (S.items s).size m (view d (S.items s)) (view d (S.items (trickle S (oriented less i) s m))) :=
    trickle_confined d s m
  have htop : view d (S.items (trickle S (oriented less i) s m)) m = view d (S.items s) g := by
    rw [hstep, (trickle_confined d (exchange S (oriented less i) s m g) g).frame m
      (Below.not_of_lt (Nat.lt_of_le_of_ne hnear.below.le hnear.ne.symm)), exchange_top hnear hgn]
  obtain ⟨k, hk, hkn, hsame⟩ := hconf.target m .refl hmn
  intro hord
  refine hord k hk hkn ?_
  rw [hsame, htop, MaxMin.better_child _ hc]
  exact hfound

/-- **Without its condition, trickling down leaves a node below its index out
of order.** -/
theorem trickle_unordered [WeakOrder less] (hs : OrderedBelow (Precedes less) (view d (S.items s)) (S.items s).size i)
    (hl : swapsLeaves S (oriented less i) s i = false) :
    ∃ j, Below i j ∧
      ¬OrderedAt (Precedes less) (view d (S.items (trickle S (oriented less i) s i))) (S.items s).size j := by
  generalize hr : oriented less i = r at hl
  fun_induction trickle S r s i with
  | case1 s i hnone =>
    rw [swapsLeaves_eq, hnone] at hl
    cases hl
  | case2 s i m hm hlt ih =>
    subst hr
    have hbest : MaxMin.Best (Precedes less) (view d (S.items s)) (S.items s).size i m :=
      best_of_findChildOrGrandchild less d hm
    have hin : i < (S.items s).size := hbest.index_lt
    have hbetter := (lessAt_iff (d := d) hbest.bound hin).mp hlt
    rw [swapsLeaves_some hm hlt] at hl
    rcases hbest.near with hc | ⟨p, hp, hc⟩
    · -- an inner child: all below it is equivalent to it
      rw [if_pos hc.parent, decide_eq_false_iff_not, Nat.not_le] at hl
      have hgrand : IsChild m (2 * m + 1) := .inl rfl
      have hgm := hs m (.of_child hc) (Nat.ne_of_gt hc.lt) (2 * m + 1) (.of_child hgrand) hl
      rw [MaxMin.better_child _ hc] at hgm
      have hgm' : ¬better (Precedes less) i (view d (S.items s) m) (view d (S.items s) (2 * m + 1)) := hgm
      have hgi : better (Precedes less) i (view d (S.items s) (2 * m + 1)) (view d (S.items s) i) := by
        by_contra hnot
        exact MaxMin.not_trans hgm' hnot hbetter
      refine ⟨m, .of_child hc, ?_⟩
      rw [exchange_child hc, ← size_swap s i m]
      refine trickle_not_orderedAt hc (by simpa using hl) ?_
      have him := hc.lt
      rw [S.items_swap, view_swap hin hbest.bound, MaxMin.swapAt_right,
        MaxMin.swapAt_of_ne (by omega) (by omega)]
      exact hgi
    · have hip := hp.lt
      have hpi : (m - 1) / 2 ≠ i := by
        rw [hc.parent]
        omega
      rw [if_neg hpi] at hl
      have hx : MaxMin.Exchanged (Precedes less) (view d (S.items s))
        (view d (S.items (exchange S (oriented less i) s i m))) i p m := exchange_grandchild hp hc hbest.bound
      obtain ⟨j, hj, hord⟩ := ih (size_exchange S _ s i m ▸ hx.orderedBelow hp hc hs) (oriented_grandchild hp hc) hl
      rw [size_exchange] at hord
      exact ⟨j, hbest.near.below.trans hj, hord⟩
  | case3 s i m hm hlt =>
    rw [swapsLeaves_eq, hm] at hl
    simp only [if_neg hlt] at hl
    cases hl

/-- **When a call of `down` in the loop does its part.** -/
theorem orderedFrom_down_iff [WeakOrder less] {k : Nat} (h : OrderedFrom less (S.items s) (k + 1)) :
    OrderedFrom less (S.items (down S less s k)) k ↔ swapsLeaves S (oriented less k) s k = true := by
  refine ⟨fun hord => ?_, h.down⟩
  by_contra hl
  rw [Bool.not_eq_true] at hl
  have hpos : 0 < (S.items s).size := by
    rw [swapsLeaves_eq] at hl
    split at hl
    · cases hl
    · rename_i hm
      exact Nat.zero_lt_of_lt (near_of_findChildOrGrandchild hm).2
  obtain ⟨d, -⟩ : ∃ d, (S.items s)[0]? = some d := ⟨_, Array.getElem?_eq_getElem hpos⟩
  obtain ⟨j, hj, hnot⟩ := trickle_unordered (d := d) (fun j hb hne => h d j (by have := hb.le; omega)) hl
  have hsize : (S.items (down S less s k)).size = (S.items s).size := (keptBySwaps_size _).down rfl
  refine hnot ?_
  rw [← down_eq, ← hsize]
  exact hord d j hj.le

/-! ## The loop -/

/-- The slice after the first `j` calls of `down`. -/
def afterRounds (S : Slots σ ι) (less : ι → ι → Bool) : σ → (k j : Nat) → σ
  | s, _, 0 => s
  | s, 0, _ + 1 => s
  | s, k + 1, j + 1 => afterRounds S less (down S less s k) k j

/-- **The loop meets its condition** exactly when each call leaves everything from
its index on in order. -/
theorem heapifySwapsLeaves_iff [WeakOrder less] : ∀ {s : σ} (k : Nat), OrderedFrom less (S.items s) k →
    (heapifySwapsLeaves S less s k = true ↔
      ∀ j ≤ k, OrderedFrom less (S.items (afterRounds S less s k j)) (k - j))
  | s, 0, h => by
    refine ⟨fun _ j hj => ?_, fun _ => rfl⟩
    rw [Nat.le_zero.mp hj]
    exact h
  | s, k + 1, h => by
    simp only [heapifySwapsLeaves, Bool.and_eq_true]
    constructor
    · rintro ⟨hfirst, hrest⟩ j hj
      cases j with
      | zero => exact h
      | succ j =>
        rw [Nat.add_sub_add_right]
        exact (heapifySwapsLeaves_iff k (h.down hfirst)).mp hrest j (Nat.le_of_succ_le_succ hj)
    · intro hall
      have hdown : OrderedFrom less (S.items (down S less s k)) k := by
        have hone := hall 1 (by omega)
        simp only [Nat.add_sub_cancel, afterRounds] at hone
        exact hone
      refine ⟨(orderedFrom_down_iff h).mp hdown, (heapifySwapsLeaves_iff k hdown).mpr fun j hj => ?_⟩
      have hnext := hall (j + 1) (by omega)
      rw [Nat.add_sub_add_right] at hnext
      exact hnext

theorem heapify_items : ∀ {s : σ} {t : τ} (k : Nat), S.items s = T.items t →
    S.items (heapify S less s k) = T.items (heapify T less t k)
  | _, _, 0, h => h
  | _, _, k + 1, h => heapify_items k (down_items h k)

end

/-! ## `Cleanup` -/

section

variable {κ ι : Type*} {less : ι → ι → Bool} {size : ι → BitVec 64}

/-- The items `Cleanup` keeps, before it puts them in order. -/
def keptItems (items : Array ι) (predicate : ι → Bool) : Array ι := (items.toList.filter (!predicate ·)).toArray

theorem HeapState.cleanup_items (st : HeapState κ ι) (predicate : ι → Bool) :
    (st.cleanup less size predicate).1.heap.items =
      if st.heap.items.toList.filter predicate = [] then st.heap.items
      else heapify (slice ι) less (keptItems st.heap.items predicate) ((keptItems st.heap.items predicate).size / 2) := by
  rw [cleanup_eq]
  split
  · rfl
  · have hitems : (slots κ ι).items (reindexAll (st.kept size predicate) (st.kept size predicate).heap.items.size) =
        keptItems st.heap.items predicate := by
      show (reindexAll _ _).heap.items = _
      rw [reindexAll_heap]
      rfl
    exact heapify_items (S := slots κ ι) (T := slice ι) _ hitems

/-- **What `Cleanup` makes of the order**, of any heap and for any predicate.
If it removes nothing, it leaves the order as it was. If it removes something,
the slice is in order when no call of `down` swaps with an inner child; and
that is so exactly when every call of `down` leaves the slice in order from its
index on. -/
theorem cleanup_heaped_iff [WeakOrder less] (st : HeapState κ ι) (predicate : ι → Bool) :
    (st.heap.items.toList.filter predicate = [] →
      (Heaped less (st.cleanup less size predicate).1.heap.items ↔ Heaped less st.heap.items)) ∧
    (st.heap.items.toList.filter predicate ≠ [] →
      (heapifySwapsLeaves (slice ι) less (keptItems st.heap.items predicate)
          ((keptItems st.heap.items predicate).size / 2) = true →
        Heaped less (st.cleanup less size predicate).1.heap.items) ∧
      (heapifySwapsLeaves (slice ι) less (keptItems st.heap.items predicate)
          ((keptItems st.heap.items predicate).size / 2) = true ↔
        ∀ j ≤ (keptItems st.heap.items predicate).size / 2,
          OrderedFrom less (afterRounds (slice ι) less (keptItems st.heap.items predicate)
            ((keptItems st.heap.items predicate).size / 2) j) ((keptItems st.heap.items predicate).size / 2 - j))) := by
  rw [HeapState.cleanup_items]
  refine ⟨fun hnone => ?_, fun hsome => ?_⟩
  · rw [if_pos hnone]
  · rw [if_neg hsome]
    refine ⟨?_, heapifySwapsLeaves_iff (S := slice ι) _ (orderedFrom_half _)⟩
    exact heapify_heaped (S := slice ι) _ (orderedFrom_half _)

end

/-- Of five items, three of them alike, `Cleanup` removes one of the three. -/
theorem cleanup_heaped_iff_tied : ∃ w heap, Reaches (step byRank fun _ => 1) (KeepsOrder byRank)
    (World.new fun _ => .maxMinHeap) w ∧ w.queue () = .heap heap ∧
      Heaped (byRank ()) (HeapState.cleanup ⟨w.mem, heap⟩ (byRank ()) (fun _ => 1) (· == (1, 2))).1.heap.items := by
  obtain ⟨w, hw, hp⟩ := exists_of_runIf (step byRank fun _ => 1) (KeepsOrder byRank)
    (World.new fun _ => .maxMinHeap) (cleanupTied.take 5)
    (fun w => (w.queue ()).heap?.any fun heap => heap.items.toList.filter (· == (1, 2)) ≠ [] ∧
      heapifySwapsLeaves (slice _) (byRank ()) (keptItems heap.items (· == (1, 2)))
        ((keptItems heap.items (· == (1, 2))).size / 2) = true) (by decide +kernel)
  obtain ⟨heap, hq, hp⟩ := QueueObj.eq_heap_of_any hp
  obtain ⟨hsome, hl⟩ := of_decide_eq_true hp
  exact ⟨w, heap, hw, hq, ((cleanup_heaped_iff ⟨w.mem, heap⟩ (· == (1, 2))).2 hsome).1 hl⟩

/-- **A heap of equivalent items out of order.** Of five items in heap order,
three of them alike, `Cleanup` removes one; the item on a min level is then
above one of its descendants. -/
theorem cleanup_tied_unordered : ∃ w heap, Reaches (step byRank fun _ => 1) (KeepsOrder byRank)
    (World.new fun _ => .maxMinHeap) w ∧ w.queue () = .heap heap ∧ Heaped (byRank ()) heap.items ∧
      ¬Heaped (byRank ()) (HeapState.cleanup ⟨w.mem, heap⟩ (byRank ()) (fun _ => 1) (· == (0, 3))).1.heap.items := by
  obtain ⟨w, hw, hp⟩ := exists_of_runIf (step byRank fun _ => 1) (KeepsOrder byRank)
    (World.new fun _ => .maxMinHeap) (cleanupTied.take 5)
    (fun w => (w.queue ()).heap?.any fun heap =>
      (HeapState.cleanup ⟨w.mem, heap⟩ (byRank ()) (fun _ => 1) (· == (0, 3))).1.heap.items.map Prod.fst =
        #[1, 1, 1, 2]) (by decide +kernel)
  obtain ⟨heap, hq, hp⟩ := QueueObj.eq_heap_of_any hp
  have hitems := of_decide_eq_true hp
  refine ⟨w, heap, hw, hq, reaches_heaps hw () heap hq, fun hord => ?_⟩
  obtain ⟨items, hi⟩ : ∃ items,
    items = (HeapState.cleanup ⟨w.mem, heap⟩ (byRank ()) (fun _ => 1) (· == (0, 3))).1.heap.items := ⟨_, rfl⟩
  rw [← hi] at hitems hord
  have hsize : items.size = 4 := by
    rw [← Array.size_map (f := Prod.fst), hitems]
    rfl
  have hrank : ∀ k : Nat, (view (0, 0) items k).1 = (#[1, 1, 1, 2] : Array Nat).getD k 0 := by
    intro k
    rw [← hitems]
    by_cases hk : k < items.size
    · simp [view, Array.getD, hk]
    · simp [view, Array.getD, hk]
  refine hord (0, 0) 1 3 (.of_child (.inl rfl)) (by omega) ?_
  show byRank () (view (0, 0) items 1) (view (0, 0) items 3) = true
  simp only [byRank, hrank]
  decide

end InferenceScheduler.Queue
