/-
The max-min heap as a priority queue. `Add` and `Drain` keep its order. `Remove`
puts the last item in the place of the removed one and only trickles it down, so
it does when the item need not go up (`fitsAt`), as for the head. Both `Remove`
and `Cleanup` need the rounds of trickling down to swap with children only when
these are leaves, which is so when no two items are equivalent.
-/
import InferenceScheduler.Queue.Refined

namespace InferenceScheduler.Queue

open MaxMin (IsChild Below Ordered OrderedAt better)

/-! ## The loops on a bare slice -/

section

variable {σ τ ι : Type*} {S : Slots σ ι} {T : Slots τ ι} {s : σ} {t : τ} {less : ι → ι → Bool}

/-- A bare slice. -/
def slice (ι : Type*) : Slots (Array ι) ι where
  items a := a
  swap a i j := a.swapIfInBounds i j
  items_swap _ _ _ := rfl

theorem swap_items (h : S.items s = T.items t) (i j : Nat) : S.items (S.swap s i j) = T.items (T.swap t i j) := by
  rw [S.items_swap, T.items_swap, h]

theorem exchange_items (h : S.items s = T.items t) (i m : Nat) :
    S.items (exchange S less s i m) = T.items (exchange T less t i m) := by
  have hswap := swap_items h i m
  simp only [exchange, hswap]
  split
  · exact swap_items hswap _ _
  · exact hswap

theorem trickle_eq (s : σ) (i : Nat) : trickle S less s i = match findChildOrGrandchild less (S.items s) i with
    | none => s
    | some m => if lessAt less (S.items s) m i then trickle S less (exchange S less s i m) m else s := by
  rw [trickle]
  split <;> simp_all

theorem swapsLeaves_eq (s : σ) (i : Nat) :
    swapsLeaves S less s i = match findChildOrGrandchild less (S.items s) i with
      | none => true
      | some m =>
        if lessAt less (S.items s) m i then
          if (m - 1) / 2 = i then decide ((S.items s).size ≤ 2 * m + 1)
          else swapsLeaves S less (exchange S less s i m) m
        else true := by
  rw [swapsLeaves]
  split <;> simp_all

theorem trickle_items (h : S.items s = T.items t) (i : Nat) :
    S.items (trickle S less s i) = T.items (trickle T less t i) := by
  fun_induction trickle S less s i generalizing t with
  | case1 s i hm =>
    rw [trickle_eq, ← h, hm]
    exact h
  | case2 s i m hm hlt ih =>
    rw [trickle_eq t, ← h, hm]
    simp only [if_pos hlt]
    exact ih (exchange_items h i m)
  | case3 s i m hm hlt =>
    rw [trickle_eq, ← h, hm]
    simp only [if_neg hlt]
    exact h

theorem down_items (h : S.items s = T.items t) (i : Nat) : S.items (down S less s i) = T.items (down T less t i) := by
  rw [down_eq, down_eq]
  exact trickle_items h i

theorem swapsLeaves_items (h : S.items s = T.items t) (i : Nat) :
    swapsLeaves S less s i = swapsLeaves T less t i := by
  fun_induction swapsLeaves S less s i generalizing t with
  | case1 s i hm => rw [swapsLeaves_eq, ← h, hm]
  | case2 s m hm hlt =>
    rw [swapsLeaves_eq, ← h, hm]
    simp only [if_pos hlt, if_true]
  | case3 s i m hm hlt hp ih =>
    rw [swapsLeaves_eq t, ← h, hm]
    simp only [if_pos hlt, if_neg hp]
    exact ih (exchange_items h i m)
  | case4 s i m hm hlt =>
    rw [swapsLeaves_eq, ← h, hm]
    simp only [if_neg hlt]

theorem heapifySwapsLeaves_items : ∀ {s : σ} {t : τ} (k : Nat), S.items s = T.items t →
    heapifySwapsLeaves S less s k = heapifySwapsLeaves T less t k
  | _, _, 0, _ => rfl
  | _, _, k + 1, h => by
    rw [heapifySwapsLeaves, heapifySwapsLeaves, swapsLeaves_items h k, heapifySwapsLeaves_items k (down_items h k)]

end

/-! ## The ends of a heap -/

section

variable {ι : Type*} {less : ι → ι → Bool} {items : Array ι} {x y d : ι}

theorem view_of_getElem? {i : Nat} (h : items[i]? = some x) : view d items i = x := by
  simp [view, Array.getD_eq_getD_getElem?, h]

theorem exists_view (hx : x ∈ items) : ∃ i < items.size, ∀ d, view d items i = x := by
  obtain ⟨i, hi⟩ := Array.mem_iff_getElem?.mp hx
  exact ⟨i, (Array.getElem?_eq_some_iff.mp hi).1, fun d => view_of_getElem? hi⟩

variable {h : MaxMinHeap ι}

/-- **`PeekHead` is a best item of a heap.** -/
theorem peekHead_best (hs : Heaped less h.items) (hx : h.peekHead = some x) :
    x ∈ h.items ∧ ∀ y ∈ h.items, ¬Precedes less y x := by
  refine ⟨Array.mem_of_getElem? hx, fun y hy => ?_⟩
  obtain ⟨i, hi, hv⟩ := exists_view hy
  have hroot := (hs x).root hi
  rwa [hv, view_of_getElem? hx] at hroot

/-- The index `PeekTail` reads. -/
def tailIndex (less : ι → ι → Bool) (items : Array ι) : Nat :=
  if items.size ≤ 1 then 0
  else if items.size = 2 then 1
  else if lessAt less items 1 2 then 2
  else 1

theorem peekTail_eq (h : MaxMinHeap ι) : h.peekTail less = h.items[tailIndex less h.items]? := by
  unfold MaxMinHeap.peekTail tailIndex
  split
  · rename_i he
    simp [he]
  · rename_i he
    simp [he]
  · rename_i he
    simp [he]
  · rename_i h0 h1 h2
    have hlt : ¬h.items.size ≤ 1 :=
      Nat.not_le.mpr (Nat.lt_of_le_of_ne (Nat.pos_of_ne_zero h0) (Ne.symm h1))
    simp only [if_neg hlt, if_neg (show ¬h.items.size = 2 from h2)]
    split <;> rfl

theorem tailIndex_worst [WeakOrder less] (hs : Heaped less items) {k : Nat} (hk : k < items.size) :
    ¬Precedes less (view d items (tailIndex less items)) (view d items k) := by
  have hroot : ∀ j < items.size, ¬Precedes less (view d items j) (view d items 0) := fun j hj => (hs d).root hj
  have hchild : ∀ c, IsChild 0 c → Below c k → ¬Precedes less (view d items c) (view d items k) :=
    fun c hc hb => (hs d).child_root hc hb hk
  by_cases h1 : items.size ≤ 1
  · rw [tailIndex, if_pos h1, show k = 0 by omega]
    exact irrefl_of _ _
  · -- the root, or below one of its two children
    have hbelow : k = 0 ∨ Below 1 k ∨ Below 2 k := by
      by_cases h0 : k = 0
      · exact .inl h0
      · obtain ⟨c, rfl | rfl, hb⟩ := (Below.root k).exists_child h0
        · exact .inr (.inl hb)
        · exact .inr (.inr hb)
    by_cases h2 : items.size = 2
    · rw [tailIndex, if_neg h1, if_pos h2]
      rcases hbelow with rfl | hb | hb
      · exact hroot 1 (by omega)
      · exact hchild 1 (.inl rfl) hb
      · have := hb.le
        omega
    · have h12 : lessAt less items 1 2 ↔ Precedes less (view d items 1) (view d items 2) :=
        lessAt_iff (i := 0) (d := d) (by omega) (by omega)
      rw [tailIndex, if_neg h1, if_neg h2]
      split
      · rename_i hlt
        rcases hbelow with rfl | hb | hb
        · exact hroot 2 (by omega)
        · exact MaxMin.not_trans (MaxMin.not_of_lt (h12.mp hlt)) (hchild 1 (.inl rfl) hb)
        · exact hchild 2 (.inr rfl) hb
      · rename_i hlt
        rcases hbelow with rfl | hb | hb
        · exact hroot 1 (by omega)
        · exact hchild 1 (.inl rfl) hb
        · exact MaxMin.not_trans (fun hp => hlt (h12.mpr hp)) (hchild 2 (.inr rfl) hb)

/-- **`PeekTail` is a worst item of a heap.** -/
theorem peekTail_worst [WeakOrder less] (hs : Heaped less h.items) (hx : h.peekTail less = some x) :
    x ∈ h.items ∧ ∀ y ∈ h.items, ¬Precedes less x y := by
  rw [peekTail_eq] at hx
  refine ⟨Array.mem_of_getElem? hx, fun y hy => ?_⟩
  obtain ⟨i, hi, hv⟩ := exists_view hy
  have hworst := tailIndex_worst (d := x) hs hi
  rwa [hv, view_of_getElem? hx] at hworst

theorem tailIndex_lt (less : ι → ι → Bool) (h : items.size ≠ 0) : tailIndex less items < items.size := by
  unfold tailIndex
  split_ifs <;> omega

theorem peeks_of_heaped [WeakOrder less] (hs : Heaped less h.items) (hne : h.items.size ≠ 0) :
    ∃ head tail, h.peekHead = some head ∧ h.peekTail less = some tail ∧ head ∈ h.items ∧ tail ∈ h.items ∧
      ∀ x ∈ h.items, ¬Precedes less x head ∧ ¬Precedes less tail x := by
  have hhead := Array.getElem?_eq_getElem (Nat.pos_of_ne_zero hne)
  have htail := Array.getElem?_eq_getElem (tailIndex_lt less hne)
  rw [← peekTail_eq] at htail
  obtain ⟨hm, hbest⟩ := peekHead_best hs hhead
  obtain ⟨hm', hworst⟩ := peekTail_worst hs htail
  exact ⟨_, _, hhead, htail, hm, hm', fun x hx => ⟨hbest x hx, hworst x hx⟩⟩

end

/-! ## What each method does to the order -/

section

variable {κ ι : Type*} {less : ι → ι → Bool} {items : Array ι} {i : Nat}

/-- Neither parent nor grandparent of `i` would change places with the last item. -/
def fitsAt (less : ι → ι → Bool) (items : Array ι) (i : Nat) : Bool :=
  let last := items.size - 1
  let parent := (i - 1) / 2
  let grandparent := (parent - 1) / 2
  i == 0 || !lessAt (oriented less parent) items last parent &&
    (parent == 0 || !lessAt (oriented less grandparent) items last grandparent)

/-- The slice after the item at `i` has been swapped to the end and cut off. -/
def cutAt (items : Array ι) (i : Nat) : Array ι := (items.swapIfInBounds i (items.size - 1)).pop

/-- When `Remove` of the item at `i` keeps the order. -/
def removeKeepsOrder (less : ι → ι → Bool) (items : Array ι) (i : Nat) : Bool :=
  items.size - 1 ≤ i || fitsAt less items i && swapsLeaves (slice ι) (oriented less i) (cutAt items i) i

/-- When `Cleanup` keeps the order. -/
def cleanupKeepsOrder (less : ι → ι → Bool) (items : Array ι) (predicate : ι → Bool) : Bool :=
  let kept := (items.toList.filter (!predicate ·)).toArray
  (items.toList.filter predicate).isEmpty || heapifySwapsLeaves (slice ι) less kept (kept.size / 2)

theorem size_cutAt (items : Array ι) (i : Nat) : (cutAt items i).size = items.size - 1 := by
  simp [cutAt]

theorem view_pop {d : ι} {k : Nat} (hk : k < items.size - 1) : view d items.pop k = view d items k := by
  have hk' : k < items.size := by omega
  simp [view, Array.getD, hk, hk']

theorem view_cutAt {d : ι} {k : Nat} (hi : i < items.size - 1) (hk : k < items.size - 1) :
    view d (cutAt items i) k = if k = i then view d items (items.size - 1) else view d items k := by
  have hlast : items.size - 1 < items.size := by omega
  have hswap := congrFun (view_swap (d := d) (show i < items.size by omega) hlast) k
  rw [cutAt, view_pop (by simpa using hk), hswap]
  unfold MaxMin.swapAt
  have hne : k ≠ items.size - 1 := by omega
  simp only [if_neg hne]

theorem not_better_of_fitsAt [WeakOrder less] (hs : Heaped less items) (hi : i < items.size - 1)
    (hf : fitsAt less items i) (d : ι) {j : Nat} (hj : Below j i) (hne : j ≠ i) :
    ¬better (Precedes less) j (view d items (items.size - 1)) (view d items j) := by
  have hle := hj.le
  simp only [fitsAt, Bool.or_eq_true, Bool.and_eq_true, beq_iff_eq, Bool.not_eq_true'] at hf
  rcases hf with h0 | ⟨hparent, hgrand⟩
  · omega
  · have hp : IsChild ((i - 1) / 2) i := MaxMin.isChild_parent (by omega)
    have hlast : items.size - 1 < items.size := by omega
    refine (hs d).not_better_above (by omega) hp (fun hb => ?_) (fun g hg hb => ?_) hj hne
    · rw [(lessAt_iff hlast (by omega)).mpr hb] at hparent
      cases hparent
    · have hpos := hg.lt
      have hgeq := hg.parent
      rcases hgrand with h0 | hgrand
      · omega
      · rw [hgeq] at hgrand
        rw [(lessAt_iff hlast (by omega)).mpr hb] at hgrand
        cases hgrand

theorem cutAt_ordered [WeakOrder less] (hs : Heaped less items) (hi : i < items.size - 1) (hf : fitsAt less items i)
    (d : ι) {j : Nat} (hj : j ≠ i) : OrderedAt (Precedes less) (view d (cutAt items i)) (cutAt items i).size j := by
  rw [size_cutAt]
  refine (hs d).replace (Nat.sub_le _ _) (fun k hk hne => ?_) (fun k hk hne => ?_) hj
  · rw [view_cutAt hi hk, if_neg hne]
  · rw [view_cutAt hi hi, if_pos rfl]
    exact not_better_of_fitsAt hs hi hf d hk hne

theorem pop_heaped (hs : Heaped less items) : Heaped less items.pop := by
  intro d
  rw [Array.size_pop]
  exact (hs d).congr (Nat.sub_le _ _) fun k hk => view_pop hk

namespace HeapState

variable {st : HeapState κ ι} {size : ι → BitVec 64}

theorem add_heaped [DecidableEq ι] [WeakOrder less] (hs : Heaped less st.heap.items) (x : ι) :
    Heaped less (st.add less size x).heap.items := by
  intro d
  have hpush : ((slots κ ι).items (st.appended x)) = st.heap.items.push x := rfl
  have hsize : ((slots κ ι).items (st.push less x)).size = st.heap.items.size + 1 := by
    rw [push_eq]
    refine ((keptBySwaps_size _).up rfl ?_).trans (by rw [hpush, Array.size_push])
    rw [hpush, Array.size_push]
    exact Nat.lt_succ_self _
  have hord : Ordered (Precedes less) (view d (st.heap.items.push x)) st.heap.items.size :=
    (hs d).congr (Nat.le_refl _) fun k hk => by
      simp [view, Array.getD_eq_getD_getElem?, Array.getElem?_push_lt hk, Array.getElem?_eq_getElem hk]
  have hup := up_ordered (S := slots κ ι) (s := st.appended x) hord (by rw [hpush, Array.size_push])
  rw [← push_eq, hpush, Array.size_push, ← hsize] at hup
  exact hup

theorem remove_heaped [WeakOrder less] (hs : Heaped less st.heap.items) {h : HandleId} {x : ι}
    (hh : h ∈ st.heap.handles) (hi : st.heap.items[i]? = some x) (ho : st.mem.objs.obj h = .heapItem i false)
    (hk : removeKeepsOrder less st.heap.items i) :
    Heaped less (st.remove less size (some h)).1.heap.items := by
  rw [remove_eq less size hh hi ho]
  by_cases hlt : i < st.heap.items.size - 1
  · simp only [if_pos hlt]
    simp only [removeKeepsOrder, Bool.or_eq_true, decide_eq_true_eq, Nat.not_le.mpr hlt, false_or,
      Bool.and_eq_true] at hk
    have hcut : (slots κ ι).items (st.cut size h i x) = cutAt st.heap.items i := by
      show ((st.swap i _).heap.items).pop = _
      rw [swap_heap]
      rfl
    refine down_heaped (S := slots κ ι) (fun d j hj => ?_) ?_
    · rw [hcut]
      exact cutAt_ordered hs hlt hk.1 d hj
    · rw [swapsLeaves_items (T := slice ι) hcut]
      exact hk.2
  · simp only [if_neg hlt]
    exact pop_heaped hs

theorem reindexAll_heap (st : HeapState κ ι) : ∀ n, (reindexAll st n).heap = st.heap
  | 0 => rfl
  | n + 1 => (reindex_heap _ n).trans (reindexAll_heap st n)

theorem cleanup_heaped [WeakOrder less] (hs : Heaped less st.heap.items) {p : ι → Bool}
    (hk : cleanupKeepsOrder less st.heap.items p) : Heaped less (st.cleanup less size p).1.heap.items := by
  rw [cleanup_eq]
  split
  · exact hs
  · rename_i hne
    have hitems : (slots κ ι).items (reindexAll (st.kept size p) (st.kept size p).heap.items.size) =
        (st.heap.items.toList.filter (!p ·)).toArray := by
      show (reindexAll _ _).heap.items = _
      rw [reindexAll_heap]
      rfl
    simp only [cleanupKeepsOrder, Bool.or_eq_true, List.isEmpty_iff, hne, false_or] at hk
    refine heapify_heaped (S := slots κ ι) _ ?_ ?_
    · rw [hitems]
      exact orderedFrom_half _
    · rw [heapifySwapsLeaves_items (T := slice ι) _ hitems]
      exact hk

end HeapState

end

/-! ## Runs -/

section

variable {κ ι : Type*}

/-- Every heap is in order. -/
def World.Heaps (less : κ → ι → ι → Bool) (w : World κ ι) : Prop :=
  ∀ q h, w.queue q = .heap h → Heaped (less q) h.items

/-- When a method keeps the order of its heap. -/
def keepsOrder (less : κ → ι → ι → Bool) (w : World κ ι) : Op κ ι → Bool
  | .remove q (some handle) =>
    match w.queue q, w.mem.objs.obj handle with
    | .heap h, .heapItem i _ => handle ∉ h.handles || removeKeepsOrder (less q) h.items i
    | _, _ => true
  | .cleanup q predicate =>
    match w.queue q with
    | .heap h => cleanupKeepsOrder (less q) h.items predicate
    | .list _ => true
  | _ => true

variable {less : κ → ι → ι → Bool} {size : ι → BitVec 64} {w : World κ ι} {kind : κ → Kind}

theorem heaps_new (kind : κ → Kind) : (World.new kind : World κ ι).Heaps less := by
  intro q h hq d i j hj hlt
  change (kind q).new = _ at hq
  cases hk : kind q with
  | maxMinHeap =>
    rw [hk] at hq
    cases hq
    exact absurd hlt (Nat.not_lt_zero j)
  | listQueue =>
    rw [hk] at hq
    cases hq

variable [DecidableEq κ]

theorem World.Heaps.put (hs : w.Heaps less) {mem : Memory κ ι} {q : κ} {o : QueueObj ι}
    (ho : ∀ h, o = .heap h → Heaped (less q) h.items) : (w.put mem q o).Heaps less := by
  intro q' h hq
  change Function.update w.queue q o q' = _ at hq
  by_cases he : q' = q
  · subst he
    rw [Function.update_self] at hq
    exact ho h hq
  · rw [Function.update_of_ne he] at hq
    exact hs q' h hq

variable [DecidableEq ι] [∀ q, WeakOrder (less q)]

/-- **A method keeps the order of the heaps** under its condition. -/
theorem exec_heaps (hw : Inv size w) (hs : w.Heaps less) {op : Op κ ι} (hk : keepsOrder less w op) :
    (w.exec less size op).1.Heaps less := by
  have hlist : ∀ {q : κ} (l : ListQueue ι) (h : MaxMinHeap ι), QueueObj.list l = .heap h → Heaped (less q) h.items :=
    nofun
  cases op with
  | add q x =>
    cases hq : w.queue q with
    | heap h =>
      simp only [World.exec, hq]
      refine hs.put fun h' he => ?_
      cases he
      exact HeapState.add_heaped (hs q h hq) x
    | list l =>
      simp only [World.exec, hq]
      exact hs.put (hlist _)
  | remove q handle =>
    cases hq : w.queue q with
    | heap h =>
      have hi : HeapState.Indexed ⟨w.mem, h⟩ := (hw.rep q).heap h hq
      simp only [World.exec, hq]
      refine hs.put fun h' he => ?_
      cases he
      by_cases hlive : ∃ hd ∈ h.handles, handle = some hd
      · obtain ⟨hd, hm, rfl⟩ := hlive
        obtain ⟨i, x, hx, hxh, ho⟩ := hi.item hm
        refine HeapState.remove_heaped (hs q h hq) hm hx ho ?_
        have ho' : w.mem.objs.obj hd = .heapItem i false := ho
        simpa [keepsOrder, hq, ho', show hd ∈ h.handles from hm] using hk
      · have hdead : ∀ hd, handle = some hd → hd ∉ h.handles := fun hd heq hm => hlive ⟨hd, hm, heq⟩
        obtain ⟨e, he⟩ : ∃ e, HeapState.remove ⟨w.mem, h⟩ (less q) size handle = (⟨w.mem, h⟩, .error e) :=
          HeapState.remove_error (less q) size hdead
        rw [he]
        exact hs q h hq
    | list l =>
      simp only [World.exec, hq]
      exact hs.put (hlist _)
  | cleanup q p =>
    cases hq : w.queue q with
    | heap h =>
      simp only [World.exec, hq]
      refine hs.put fun h' he => ?_
      cases he
      refine HeapState.cleanup_heaped (hs q h hq) ?_
      simpa [keepsOrder, hq] using hk
    | list l =>
      simp only [World.exec, hq]
      exact hs.put (hlist _)
  | drain q =>
    cases hq : w.queue q with
    | heap h =>
      simp only [World.exec, hq]
      refine hs.put fun h' he => ?_
      cases he
      exact fun d i j _ hlt => absurd hlt (Nat.not_lt_zero j)
    | list l =>
      simp only [World.exec, hq]
      exact hs.put (hlist _)
  | foreignHandle b => exact hs

/-- The steps that keep the order, of items in no queue. -/
def KeepsOrder (less : κ → ι → ι → Bool) (w : World κ ι) (op : Op κ ι) : Prop := Fresh w op ∧ keepsOrder less w op

theorem reaches_heaps (h : Reaches (step less size) (KeepsOrder less) (World.new kind) w) : w.Heaps less := by
  refine (h.invariant (fun w => Inv size w ∧ w.Heaps less) ⟨.new kind, heaps_new kind⟩ fun _ _ _ hw hop hs => ?_).2
  cases hs
  exact ⟨(exec_refines hw.1 hop.1).inv, exec_heaps hw.1 hw.2 hop.2⟩

/-- **The ends of a heap.** In every run in which each `Remove` puts an item in
the place of the removed one that may stand there, and each loop of trickling
down swaps with children only when they are leaves, `PeekHead` returns an item
than which none is better and `PeekTail` one than which none is worse. -/
theorem peeks_extremal (h : Reaches (step less size) (KeepsOrder less) (World.new kind) w) {q : κ}
    {heap : MaxMinHeap ι} (hq : w.queue q = .heap heap) (hne : heap.items.size ≠ 0) :
    ∃ head tail, heap.peekHead = some head ∧ heap.peekTail (less q) = some tail ∧
      head ∈ heap.items ∧ tail ∈ heap.items ∧
      ∀ x ∈ heap.items, ¬Precedes (less q) x head ∧ ¬Precedes (less q) tail x := by
  exact peeks_of_heaped (reaches_heaps h q heap hq) hne

instance [Fintype κ] (w : World κ ι) (op : Op κ ι) : Decidable (KeepsOrder less w op) :=
  inferInstanceAs (Decidable (Fresh w op ∧ keepsOrder less w op = true))

/-- `Remove` is called with the handles of queued items only. -/
def LiveRemoval (w : World κ ι) : Op κ ι → Prop
  | .remove q handle => ∃ x ∈ (w.queue q).items, w.mem.handle x = handle
  | _ => True

instance (w : World κ ι) : ∀ op, Decidable (LiveRemoval w op)
  | .remove q handle => inferInstanceAs (Decidable (∃ x ∈ (w.queue q).items, w.mem.handle x = handle))
  | .add _ _ => .isTrue trivial
  | .cleanup _ _ => .isTrue trivial
  | .drain _ => .isTrue trivial
  | .foreignHandle _ => .isTrue trivial

end

/-- Items with a rank and a name, ordered by rank. -/
def byRank : Unit → Nat × Nat → Nat × Nat → Bool := fun _ x y => x.1 < y.1

theorem precedes_byRank {q : Unit} {x y : Nat × Nat} : Precedes (byRank q) x y ↔ x.1 < y.1 := by
  simp [Precedes, byRank]

instance (q : Unit) : WeakOrder (byRank q) where
  irrefl x h := Nat.lt_irrefl _ (precedes_byRank.mp h)
  trans x y z h h' := precedes_byRank.mpr (Nat.lt_trans (precedes_byRank.mp h) (precedes_byRank.mp h'))
  incomp_trans x y z h h' := by
    simp only [precedes_byRank] at *
    omega

/-- Six items, no two alike. -/
def fillSix : List (Op Unit (Nat × Nat)) :=
  [(0, 0), (50, 1), (99, 2), (40, 3), (30, 4), (98, 5)].map (Op.add ())

/-- A leaf of the first subtree is replaced by a worse item of the second, whose root
is removed then. -/
def removeDeep : List (Op Unit (Nat × Nat)) := fillSix ++ [.remove () (some 3), .remove () (some 2)]

/-- Five items, three of them alike, of which `Cleanup` removes one. -/
def cleanupTied : List (Op Unit (Nat × Nat)) :=
  [(1, 0), (2, 1), (1, 2), (0, 3), (1, 4)].map (Op.add ()) ++ [.cleanup () (· == (0, 3))]

/-- The heap of a queue, if it has one. -/
def QueueObj.heap? {ι : Type*} : QueueObj ι → Option (MaxMinHeap ι)
  | .heap h => some h
  | .list _ => none

theorem QueueObj.eq_heap_of_any {ι : Type*} {q : QueueObj ι} {p : MaxMinHeap ι → Bool} (h : q.heap?.any p = true) :
    ∃ heap, q = .heap heap ∧ p heap = true := by
  cases q with
  | heap heap => exact ⟨heap, rfl, h⟩
  | list => cases h

theorem peeks_extremal_fillSix : ∃ w heap, Reaches (step byRank fun _ => 1) (KeepsOrder byRank)
    (World.new fun _ => .maxMinHeap) w ∧ w.queue () = .heap heap ∧ heap.items.size = 5 ∧
      ∃ head tail, heap.peekHead = some head ∧ heap.peekTail (byRank ()) = some tail ∧
        ∀ x ∈ heap.items, ¬Precedes (byRank ()) x head ∧ ¬Precedes (byRank ()) tail x := by
  obtain ⟨w, hw, hp⟩ := exists_of_runIf (step byRank fun _ => 1) (KeepsOrder byRank)
    (World.new fun _ => .maxMinHeap) (fillSix ++ [.remove () (some 1)])
    (fun w => (w.queue ()).heap?.any (·.items.size = 5)) (by decide +kernel)
  obtain ⟨heap, hq, hp⟩ := QueueObj.eq_heap_of_any hp
  have hsize := of_decide_eq_true hp
  obtain ⟨head, tail, hhead, htail, -, -, hends⟩ := peeks_extremal hw hq (by omega)
  exact ⟨w, heap, hw, hq, hsize, head, tail, hhead, htail, hends⟩

/-- Some item is worse than `PeekTail`. -/
def tailBeaten (w : World Unit (Nat × Nat)) : Bool :=
  match w.queue () with
  | .heap heap => (heap.peekTail (byRank ())).any fun tail => heap.items.any fun x => byRank () tail x
  | .list _ => false

/-- **`PeekTail` after other removals.** After the removal of two queued items
by their handles, and after a `Cleanup` of equivalent items, `PeekTail` is an
item that another one in the heap is worse than. -/
theorem peekTail_not_worst : [removeDeep, cleanupTied].Forall fun ops => ∃ w heap tail x,
    runIf (step byRank fun _ => 1) (fun w op => Fresh w op ∧ LiveRemoval w op) (World.new fun _ => .maxMinHeap) ops =
      some w ∧ w.queue () = .heap heap ∧ heap.peekTail (byRank ()) = some tail ∧ x ∈ heap.items ∧
        Precedes (byRank ()) tail x := by
  have hbeaten : ∀ ops ∈ [removeDeep, cleanupTied], (runIf (step byRank fun _ => 1)
      (fun w op => Fresh w op ∧ LiveRemoval w op) (World.new fun _ => .maxMinHeap) ops).any tailBeaten := by
    decide +kernel
  refine List.forall_iff_forall_mem.mpr fun ops hops => ?_
  obtain ⟨w, hw, hp⟩ := (Option.any_eq_true ..).mp (hbeaten ops hops)
  unfold tailBeaten at hp
  split at hp
  · rename_i heap hq
    obtain ⟨tail, htail, hp⟩ := (Option.any_eq_true ..).mp hp
    obtain ⟨i, hi, hlt⟩ := Array.any_eq_true.mp hp
    exact ⟨w, heap, tail, _, hw, hq, htail, Array.getElem_mem hi, hlt⟩
  · cases hp

/-! ## Removal of the head only -/

section

variable {ι : Type*} {less : ι → ι → Bool} {items : Array ι}

instance [IsStrictTotalOrder ι (Precedes less)] : WeakOrder less := isStrictWeakOrder_of_isOrderConnected

theorem Untied.sublist {l l' : List ι} (h : Untied less l) (hs : l'.Sublist l) : Untied less l' := List.Pairwise.sublist hs h

theorem untied_of_nodup [IsStrictTotalOrder ι (Precedes less)] {l : List ι} (h : l.Nodup) : Untied less l :=
  List.Pairwise.imp (fun hne => ((trichotomous_of (Precedes less) _ _).imp_right fun h => h.resolve_left hne)) h

theorem untied_cutAt (h : Untied less items.toList) {i : Nat} (hi : i < items.size) :
    Untied less (cutAt items i).toList := by
  have hperm : (items.swapIfInBounds i (items.size - 1)).toList.Perm items.toList :=
    keptBySwaps_perm (S := slice ι) items.toList items i (items.size - 1) (.refl _) hi (by
      show items.size - 1 < items.size
      omega)
  rw [cutAt, Array.toList_pop]
  exact (h.perm hperm).sublist (List.dropLast_sublist _)

theorem removeKeepsOrder_zero [WeakOrder less] (hs : Heaped less items) (hu : Untied less items.toList) :
    removeKeepsOrder less items 0 := by
  rw [removeKeepsOrder, Bool.or_eq_true, Bool.and_eq_true, decide_eq_true_eq]
  by_cases hlt : 0 < items.size - 1
  · refine .inr ⟨rfl, ?_⟩
    have h0 : 0 < items.size := by omega
    exact swapsLeaves_of_untied (S := slice ι) (d := items[0])
      (fun j _ hne => cutAt_ordered hs hlt rfl _ hne) (untied_cutAt hu h0)
  · exact .inl (Nat.le_of_not_lt hlt)

theorem cleanupKeepsOrder_of_untied [WeakOrder less] (hu : Untied less items.toList) (p : ι → Bool) :
    cleanupKeepsOrder less items p := by
  rw [cleanupKeepsOrder, Bool.or_eq_true]
  refine .inr (heapifySwapsLeaves_of_untied (S := slice ι) _ (orderedFrom_half _) ?_)
  exact hu.sublist List.filter_sublist

end

section

variable {κ ι : Type*} [DecidableEq κ] [DecidableEq ι] (less : κ → ι → ι → Bool) (size : ι → BitVec 64)

/-- No item but the head is removed by its handle from a heap. -/
def HeadOnly (w : World κ ι) : Op κ ι → Prop
  | .remove q handle => ∀ h, w.queue q = .heap h → ∀ x ∈ h.items, w.mem.handle x = handle → h.peekHead = some x
  | _ => True

/-- `Remove(PeekHead().Handle())`. -/
def World.popHead (w : World κ ι) (q : κ) : World κ ι × Option ι :=
  match w.queue q with
  | .heap h =>
    match h.peekHead with
    | none => (w, none)
    | some x =>
      match w.exec less size (.remove q (w.mem.handle x)) with
      | (w', .removed y) => (w', some y)
      | (w', _) => (w', none)
  | .list _ => (w, none)

/-- The head is removed again and again, `n` times at most. -/
def World.popAll (w : World κ ι) (q : κ) : Nat → List ι
  | 0 => []
  | n + 1 =>
    match w.popHead less size q with
    | (w', some x) => x :: popAll w' q n
    | (_, none) => []

variable {less size} {w : World κ ι} {kind : κ → Kind} {q : κ} {heap : MaxMinHeap ι}

theorem popHead_eq (less : κ → ι → ι → Bool) (hw : Inv size w) (hq : w.queue q = .heap heap) {x : ι} (hx : heap.peekHead = some x) :
    ∃ w' heap', w.popHead less size q = (w', some x) ∧ w' = (w.exec less size (.remove q (w.mem.handle x))).1 ∧
      w'.queue q = .heap heap' ∧ (x :: heap'.items.toList).Perm heap.items.toList := by
  have hi : HeapState.Indexed ⟨w.mem, heap⟩ := (hw.rep q).heap heap hq
  obtain ⟨hd, hm, hxh, ho⟩ := hi.index 0 x hx
  obtain ⟨st, hst, -, hr⟩ := HeapState.remove_spec (less q) size hi hm hx hxh ho
  have hxh' : w.mem.handle x = some hd := hxh
  have hexec : w.exec less size (.remove q (w.mem.handle x)) = (w.put st.mem q (.heap st.heap), .removed x) := by
    simp only [World.exec, hq, hxh', hst, Result.ofExcept]
  refine ⟨_, st.heap, ?_, rfl, ?_, hr.perm⟩
  · simp only [World.popHead, hq, hx, hexec]
  · rw [hexec]
    exact Function.update_self ..

variable [∀ q, IsStrictTotalOrder ι (Precedes (less q))]

omit [DecidableEq κ] [DecidableEq ι] in
theorem Inv.untied (hw : Inv size w) (hq : w.queue q = .heap heap) : Untied (less q) heap.items.toList :=
  untied_of_nodup ((hw.rep q).heap heap hq).nodup

omit [DecidableEq κ] [DecidableEq ι] in
theorem keepsOrder_of_headOnly (hw : Inv size w) (hs : w.Heaps less) {op : Op κ ι} (hop : HeadOnly w op) :
    keepsOrder less w op := by
  cases op with
  | add q x | drain q | foreignHandle b => rfl
  | remove q handle =>
    cases handle with
    | none => rfl
    | some hd =>
      simp only [keepsOrder]
      split
      · rename_i h i b hq ho
        by_cases hm : hd ∈ h.handles
        · have hi : HeapState.Indexed ⟨w.mem, h⟩ := (hw.rep q).heap h hq
          obtain ⟨j, x, hx, hxh, ho'⟩ := hi.item hm
          have hidx : w.mem.objs.obj hd = .heapItem j false := ho'
          rw [ho] at hidx
          cases hidx
          -- the item is the head, so its index is that of the root
          have hhead := hop h hq x (Array.mem_of_getElem? hx) hxh
          have hroot : i = 0 := by
            obtain ⟨hlt, hget⟩ := Array.getElem?_eq_some_iff.mp hx
            obtain ⟨hlt', hget'⟩ := Array.getElem?_eq_some_iff.mp hhead
            have hsame : h.items.toList[i] = h.items.toList[0] := hget.trans hget'.symm
            exact hi.nodup.getElem_inj_iff.mp hsame
          subst hroot
          rw [Bool.or_eq_true]
          exact .inr (removeKeepsOrder_zero (hs q h hq) (hw.untied hq))
        · simp [hm]
      · rfl
  | cleanup q p =>
    simp only [keepsOrder]
    split
    · rename_i h hq
      exact cleanupKeepsOrder_of_untied (hw.untied hq) p
    · rfl

theorem reaches_headOnly (h : Reaches (step less size) (fun w op => Fresh w op ∧ HeadOnly w op) (World.new kind) w) :
    Inv size w ∧ w.Heaps less := by
  refine h.invariant (fun w => Inv size w ∧ w.Heaps less) ⟨.new kind, heaps_new kind⟩ fun _ _ _ hw hop hs => ?_
  cases hs
  exact ⟨(exec_refines hw.1 hop.1).inv, exec_heaps hw.1 hw.2 (keepsOrder_of_headOnly hw.1 hw.2 hop.2)⟩

theorem popAll_sorted : ∀ (n : Nat) {w : World κ ι} {heap : MaxMinHeap ι}, Inv size w → w.Heaps less →
    w.queue q = .heap heap → heap.items.size = n →
    (w.popAll less size q n).Perm heap.items.toList ∧ (w.popAll less size q n).Pairwise (Precedes (less q))
  | 0, w, heap, _, _, _, hn => by
    rw [World.popAll, Array.eq_empty_of_size_eq_zero hn]
    exact ⟨.refl _, .nil⟩
  | n + 1, w, heap, hw, hs, hq, hn => by
    have hx : heap.peekHead = some heap.items[0] := Array.getElem?_eq_getElem (by omega)
    obtain ⟨w', heap', hpop, hw', hq', hperm⟩ := popHead_eq less hw hq hx
    -- the removal is one of the head, so the rest is in order
    have hhead : HeadOnly w (.remove q (w.mem.handle heap.items[0])) := by
      intro h hq₁ y hy hyh
      rw [hq] at hq₁
      cases hq₁
      have hi : HeapState.Indexed ⟨w.mem, heap⟩ := (hw.rep q).heap heap hq
      rw [hx, hi.injective hy (Array.mem_of_getElem? hx) hyh]
    have hinv : Inv size w' := by
      rw [hw']
      exact Refines.inv (exec_refines hw trivial)
    have hs' : w'.Heaps less := hw' ▸ exec_heaps hw hs (keepsOrder_of_headOnly hw hs hhead)
    have hn' : heap'.items.size = n := by
      have hlen := hperm.length_eq
      simp only [List.length_cons, Array.length_toList] at hlen
      omega
    obtain ⟨hrest, hsorted⟩ := popAll_sorted n hinv hs' hq' hn'
    have hall : w.popAll less size q (n + 1) = heap.items[0] :: w'.popAll less size q n := by
      rw [World.popAll, hpop]
    rw [hall]
    refine ⟨(hrest.cons _).trans hperm, List.pairwise_cons.mpr ⟨fun y hy => ?_, hsorted⟩⟩
    -- what comes later is in the heap, and is not the head
    have hnodup : (heap.items[0] :: heap'.items.toList).Nodup :=
      hperm.nodup_iff.mpr ((hw.rep q).heap heap hq).nodup
    have hym : y ∈ heap'.items.toList := hrest.mem_iff.mp hy
    have hne : heap.items[0] ≠ y := fun he => (List.nodup_cons.mp hnodup).1 (he ▸ hym)
    have hy' : y ∈ heap.items := Array.mem_toList_iff.mp (hperm.mem_iff.mp (List.mem_cons_of_mem _ hym))
    have hbest := (peekHead_best (hs q heap hq) hx).2 y hy'
    exact ((trichotomous_of (Precedes (less q)) _ y).resolve_right fun h => h.elim hne hbest)

/-- **The max-min heap is a priority queue** on the processor's path: for a
strict total order, in every run in which items are removed from a heap by
`Remove` of its head, `Cleanup` and `Drain`, the heap is in order on all
levels, `PeekHead` is the one item that precedes all others and `PeekTail` the
one that all others precede, and removing the head until the heap is empty
gives its items in the order of their priorities. -/
theorem priority_queue_of_headOnly
    (h : Reaches (step less size) (fun w op => Fresh w op ∧ HeadOnly w op) (World.new kind) w)
    (hq : w.queue q = .heap heap) :
    Heaped (less q) heap.items ∧
    (heap.items.size ≠ 0 → ∃ head tail, heap.peekHead = some head ∧ heap.peekTail (less q) = some tail ∧
      head ∈ heap.items ∧ tail ∈ heap.items ∧
      ∀ x ∈ heap.items, (x ≠ head → Precedes (less q) head x) ∧ (x ≠ tail → Precedes (less q) x tail)) ∧
    (w.popAll less size q heap.items.size).Perm heap.items.toList ∧
    (w.popAll less size q heap.items.size).Pairwise (Precedes (less q)) := by
  obtain ⟨hw, hs⟩ := reaches_headOnly h
  refine ⟨hs q heap hq, fun hne => ?_, popAll_sorted _ hw hs hq rfl⟩
  obtain ⟨head, tail, hhead, htail, hm, hm', hends⟩ := peeks_of_heaped (hs q heap hq) hne
  refine ⟨head, tail, hhead, htail, hm, hm', fun x hx => ⟨fun hxh => ?_, fun hxt => ?_⟩⟩
  · exact (trichotomous_of (Precedes (less q)) head x).resolve_right fun h =>
      h.elim (fun he => hxh he.symm) (hends x hx).1
  · exact (trichotomous_of (Precedes (less q)) x tail).resolve_right fun h => h.elim hxt (hends x hx).2

end

instance {κ ι : Type*} [DecidableEq ι] (w : World κ ι) : ∀ op, Decidable (HeadOnly w op)
  | .remove q handle =>
    match hq : w.queue q with
    | .heap h => decidable_of_iff (∀ x ∈ h.items, w.mem.handle x = handle → h.peekHead = some x) (by simp [HeadOnly, hq])
    | .list _ => .isTrue (by simp [HeadOnly, hq])
  | .add _ _ => .isTrue trivial
  | .cleanup _ _ => .isTrue trivial
  | .drain _ => .isTrue trivial
  | .foreignHandle _ => .isTrue trivial

theorem precedes_byNumber {q : Bool} {x y : Nat} : Precedes (byNumber q) x y ↔ x < y := by
  simp [Precedes, byNumber]

instance (q : Bool) : IsStrictTotalOrder Nat (Precedes (byNumber q)) where
  irrefl x h := Nat.lt_irrefl _ (precedes_byNumber.mp h)
  trans x y z h h' := precedes_byNumber.mpr (Nat.lt_trans (precedes_byNumber.mp h) (precedes_byNumber.mp h'))
  trichotomous x y h h' := by
    simp only [precedes_byNumber] at *
    omega

/-- The head is removed from a heap of six items, then one by `Cleanup`. -/
def headRun : List (Op Bool Nat) :=
  [5, 3, 8, 1, 9, 4].map (Op.add false) ++ [.remove false (some 3), .cleanup false (· == 8)]

theorem priority_queue_of_headOnly_headRun : ∃ w heap, Reaches (step byNumber fun _ => 1)
    (fun w op => Fresh w op ∧ HeadOnly w op) (World.new twoQueues) w ∧ w.queue false = .heap heap ∧
      heap.items.size = 4 ∧ Heaped (byNumber false) heap.items ∧
      (w.popAll byNumber (fun _ => 1) false heap.items.size).Pairwise (Precedes (byNumber false)) := by
  obtain ⟨w, hw, hp⟩ := exists_of_runIf (step byNumber fun _ => 1) (fun w op => Fresh w op ∧ HeadOnly w op)
    (World.new twoQueues) headRun
    (fun w => (w.queue false).heap?.any (·.items.size = 4)) (by decide +kernel)
  obtain ⟨heap, hq, hp⟩ := QueueObj.eq_heap_of_any hp
  obtain ⟨hs, -, -, hsorted⟩ := priority_queue_of_headOnly hw hq
  exact ⟨w, heap, hw, hq, of_decide_eq_true hp, hs, hsorted⟩

end InferenceScheduler.Queue
