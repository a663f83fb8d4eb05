/-
The eviction queue (`pkg/epp/flowcontrol/eviction/queue.go`): all requests in
flight by ID, and a `container/heap` of those the filter accepts. A heap entry
is an object that the slice and the map of handles share.

Every method runs under the queue's mutex. A method that panics is `none`;
`make` in `PopN` is the one place where a caller can bring that about.
-/
import InferenceScheduler.Lib.ContainerHeap
import InferenceScheduler.Lib.Heap
import InferenceScheduler.Lib.Run
import Mathlib.Data.List.Basic

namespace InferenceScheduler.Eviction

open Function (update update_of_ne update_self)

/-- The channel is its identity (`none` is nil). The request and the endpoint's
metadata are read by nothing here. -/
structure EvictionItem where
  requestID : String
  priority : Int
  dispatchTime : Int
  targetURL : String
  evictCh : Option Nat
  deriving Repr, DecidableEq, Inhabited

/-- A `*heapEntry`: the object's identity and its item. -/
structure HeapEntry where
  ptr : Nat
  item : EvictionItem
  deriving Repr, DecidableEq, Inhabited

/-- `EvictionQueue`. The store holds the `index` of every entry. -/
structure EvictionQueue where
  entries : Array HeapEntry
  store : Heap Int
  handles : String → Option HeapEntry
  allInFlight : String → Option EvictionItem

/-- The policies a queue is made with. -/
structure Policies where
  less : EvictionItem → EvictionItem → Bool
  accept : EvictionItem → Bool

/-- `Less` of the heap. -/
def Policies.lt (p : Policies) (e f : HeapEntry) : Prop := p.less e.item f.item = true

instance (p : Policies) : DecidableRel p.lt := fun e f => inferInstanceAs (Decidable (p.less e.item f.item = true))

/-- The ordering policy is a strict weak order. -/
abbrev Policies.WeakOrder (p : Policies) : Prop := IsStrictWeakOrder EvictionItem fun x y => p.less x y = true

instance (p : Policies) [h : p.WeakOrder] : IsStrictWeakOrder HeapEntry p.lt where
  irrefl e := h.irrefl e.item
  trans e f g := h.trans e.item f.item g.item
  incomp_trans e f g := h.incomp_trans e.item f.item g.item

namespace EvictionQueue

/-- `NewEvictionQueue`. -/
def new : EvictionQueue :=
  { entries := #[], store := ⟨fun _ => 0, 0⟩, handles := fun _ => none, allInFlight := fun _ => none }

/-! ## The heap interface -/

/-- `h.entries[i].index = i`. -/
def reindex (entries : Array HeapEntry) (store : Heap Int) (i : Nat) : Heap Int :=
  match entries[i]? with
  | some e => store.set e.ptr i
  | none => store

/-- `evictionHeap.Swap`. -/
def swap (q : EvictionQueue) (i j : Nat) : EvictionQueue :=
  let entries := q.entries.swapIfInBounds i j
  { q with entries, store := reindex entries (reindex entries q.store i) j }

/-- `evictionHeap.Push`. -/
def push (q : EvictionQueue) (e : HeapEntry) : EvictionQueue :=
  { q with entries := q.entries.push e, store := q.store.set e.ptr q.entries.size }

/-- `evictionHeap.Pop`. -/
def pop (q : EvictionQueue) : EvictionQueue :=
  match q.entries.back? with
  | some e => { q with entries := q.entries.pop, store := q.store.set e.ptr (-1) }
  | none => q

theorem pop_frame (q : EvictionQueue) :
    q.pop.store.next = q.store.next ∧ q.pop.handles = q.handles ∧ q.pop.allInFlight = q.allInFlight := by
  unfold pop
  split
  · exact ⟨rfl, rfl, rfl⟩
  · exact ⟨rfl, rfl, rfl⟩

theorem pop_entries (q : EvictionQueue) : q.pop.entries = q.entries.pop := by
  unfold pop
  split
  · rfl
  · rename_i h
    rw [Array.back?_eq_none_iff] at h
    rw [h]
    rfl

/-- The queue's heap as `container/heap` sees it. -/
def heap : ContainerHeap.Interface EvictionQueue HeapEntry where
  items := entries
  swap := swap
  push := push
  pop := pop
  items_swap _ _ _ := rfl
  items_push _ _ := rfl
  items_pop := pop_entries

/-! ## The methods -/

section Methods

variable (p : Policies)

/-- Takes the entry of an ID out of the heap, where it has one. -/
def removeHandle (q : EvictionQueue) (requestID : String) : Option EvictionQueue :=
  match q.handles requestID with
  | none => some q
  | some e =>
    (ContainerHeap.remove heap p.lt q (q.store.obj e.ptr)).map fun r =>
      { r.2 with handles := update r.2.handles requestID none }

/-- Pushes a new entry and keeps its handle. -/
def addEntry (q : EvictionQueue) (item : EvictionItem) : EvictionQueue :=
  let e : HeapEntry := { ptr := q.store.next, item }
  let q := ContainerHeap.push heap p.lt { q with store := q.store.alloc 0 } e
  { q with handles := update q.handles item.requestID (some e) }

def track (q : EvictionQueue) (item : EvictionItem) : Option EvictionQueue := do
  let q ← q.removeHandle p item.requestID
  let q := { q with allInFlight := update q.allInFlight item.requestID (some item) }
  if p.accept item then some (q.addEntry p item) else some q

def untrack (q : EvictionQueue) (requestID : String) : Option EvictionQueue := do
  let q ← q.removeHandle p requestID
  some { q with allInFlight := update q.allInFlight requestID none }

/-- A round of the loop of `PopN`. -/
def popEntry (q : EvictionQueue) : Option (EvictionItem × EvictionQueue) :=
  (ContainerHeap.pop heap p.lt q).map fun r =>
    (r.1.item,
      { r.2 with
        handles := update r.2.handles r.1.item.requestID none
        allInFlight := update r.2.allInFlight r.1.item.requestID none })

/-- The loop of `PopN`. -/
def popLoop (q : EvictionQueue) : Nat → Option (List EvictionItem × EvictionQueue)
  | 0 => some ([], q)
  | n + 1 =>
    if 0 < q.entries.size then do
      let (item, q) ← q.popEntry p
      let (items, q) ← q.popLoop n
      some (item :: items, q)
    else some ([], q)

/-- `make` panics below zero and above a bound of the platform. -/
def makes (maxCap : Nat) (n : Int) : Bool := 0 ≤ n ∧ n ≤ maxCap

def popN (maxCap : Nat) (q : EvictionQueue) (n : Int) : Option (List EvictionItem × EvictionQueue) :=
  if makes maxCap n then q.popLoop p n.toNat else none

end Methods

/-! ## Where the entries stand -/

section Positions

variable {q q' : EvictionQueue} {e : HeapEntry} {i j : Nat}

/-- Every entry's index is its position. -/
def Indexed (q : EvictionQueue) : Prop := ∀ (i : Nat) (e : HeapEntry), q.entries[i]? = some e → q.store.obj e.ptr = i

/-- Only the order of the slice and the indices differ. -/
structure Moved (q q' : EvictionQueue) : Prop where
  perm : q'.entries.toList.Perm q.entries.toList
  next : q'.store.next = q.store.next
  handles : q'.handles = q.handles
  allInFlight : q'.allInFlight = q.allInFlight

theorem Indexed.ptr_ne (h : Indexed q) {f : HeapEntry} (he : q.entries[i]? = some e)
    (hf : q.entries[j]? = some f) (hij : i ≠ j) : e.ptr ≠ f.ptr := by
  intro hptr
  have hi := h i e he
  rw [hptr, h j f hf] at hi
  exact hij (Int.ofNat.inj hi).symm

theorem swap_store {f : HeapEntry} (he : q.entries[i]? = some e) (hf : q.entries[j]? = some f) :
    (q.swap i j).store = (q.store.set f.ptr i).set e.ptr j := by
  have hi := (Array.getElem?_eq_some_iff.mp he).1
  have hj := (Array.getElem?_eq_some_iff.mp hf).1
  have hati : (q.entries.swapIfInBounds i j)[i]? = some f := by
    rw [MaxMin.getElem?_swapIfInBounds hi hj, if_pos rfl, hf]
  have hatj : (q.entries.swapIfInBounds i j)[j]? = some e := by
    rw [MaxMin.getElem?_swapIfInBounds hi hj]
    split
    · rename_i hji
      rw [hji, he]
    · rw [if_pos rfl, he]
  simp only [swap, reindex, hati, hatj]

theorem Indexed.swap (h : Indexed q) (hi : i < q.entries.size) (hj : j < q.entries.size) : Indexed (q.swap i j) := by
  obtain ⟨e, he⟩ : ∃ e, q.entries[i]? = some e := ⟨_, Array.getElem?_eq_getElem hi⟩
  obtain ⟨f, hf⟩ : ∃ f, q.entries[j]? = some f := ⟨_, Array.getElem?_eq_getElem hj⟩
  intro k g hg
  rw [swap_store he hf]
  have hg' : (q.entries.swapIfInBounds i j)[k]? = some g := hg
  rw [MaxMin.getElem?_swapIfInBounds hi hj] at hg'
  split at hg'
  · -- what stood at `j`
    rename_i hki
    rw [hf, Option.some.injEq] at hg'
    subst hki hg'
    by_cases hkj : k = j
    · subst hkj
      rw [hf, Option.some.injEq] at he
      rw [he, Heap.set_obj_self]
    · rw [Heap.set_obj_of_ne _ (h.ptr_ne hf he (Ne.symm hkj)), Heap.set_obj_self]
  · rename_i hki
    split at hg'
    · rename_i hkj
      rw [he, Option.some.injEq] at hg'
      subst hkj hg'
      rw [Heap.set_obj_self]
    · rename_i hkj
      rw [Heap.set_obj_of_ne _ (h.ptr_ne hg' he hki), Heap.set_obj_of_ne _ (h.ptr_ne hg' hf hkj)]
      exact h k g hg'

theorem reindex_next (entries : Array HeapEntry) (store : Heap Int) (i : Nat) :
    (reindex entries store i).next = store.next := by
  unfold reindex
  split <;> rfl

theorem Moved.swap (h : Moved q q') (hi : i < q'.entries.size) (hj : j < q'.entries.size) :
    Moved q (q'.swap i j) := by
  refine ⟨?_, ?_, h.handles, h.allInFlight⟩
  · have hswap : (q'.entries.swapIfInBounds i j).toList.Perm q'.entries.toList := by
      rw [Array.swapIfInBounds_def, dif_pos hi, dif_pos hj]
      exact (Array.swap_perm hi hj).toList
    exact hswap.trans h.perm
  · simp only [EvictionQueue.swap, reindex_next, h.next]

theorem indexed_of_swapped {n : Nat} (h : Indexed q) (hn : n ≤ q.entries.size)
    (hs : ContainerHeap.Swapped heap n q q') : Indexed q' ∧ Moved q q' := by
  refine hs.keeps (P := fun t => Indexed t ∧ Moved q t) ⟨h, .refl _, rfl, rfl, rfl⟩ fun t i j ht hi hj => ?_
  have hsize : t.entries.size = q.entries.size := by simpa using ht.2.perm.length_eq
  exact ⟨ht.1.swap (by omega) (by omega), ht.2.swap (by omega) (by omega)⟩

theorem mem_entries (h : q.entries[i]? = some e) : e ∈ q.entries.toList :=
  Array.mem_toList_iff.mpr (Array.mem_of_getElem? h)

theorem Indexed.push (h : Indexed q) (hfresh : ∀ f ∈ q.entries.toList, f.ptr ≠ e.ptr) : Indexed (q.push e) := by
  intro i f hf
  simp only [EvictionQueue.push] at hf ⊢
  rw [Array.getElem?_push] at hf
  split at hf
  · rename_i hi
    cases hf
    rw [Heap.set_obj_self, hi]
  · rw [Heap.set_obj_of_ne _ (hfresh f (mem_entries hf))]
    exact h i f hf

theorem Indexed.pop (h : Indexed q) (he : q.entries.back? = some e) :
    Indexed q.pop ∧ q.entries.toList = q.pop.entries.toList ++ [e] := by
  have hpos : 0 < q.entries.size := by
    rcases Nat.eq_zero_or_pos q.entries.size with h0 | h0
    · rw [Array.back?_eq_getElem?, h0, Array.getElem?_eq_none (by omega)] at he
      cases he
    · exact h0
  have hlast : q.entries[q.entries.size - 1]? = some e := by rw [← he, Array.back?_eq_getElem?]
  constructor
  · intro i f hf
    rw [pop_entries, Array.getElem?_pop] at hf
    split at hf
    · rename_i hi
      have hne : f.ptr ≠ e.ptr := h.ptr_ne hf hlast (by omega)
      simp only [EvictionQueue.pop, he, Heap.set_obj_of_ne _ hne]
      exact h i f hf
    · cases hf
  · rw [← Array.getLast?_toList] at he
    rw [pop_entries, Array.toList_pop, List.dropLast_append_getLast? e he]

end Positions

/-! ## The heap and its handles -/

section Valid

variable {p : Policies} {q q' : EvictionQueue} {e f : HeapEntry}

/-- **The heap and its handles agree**: one entry an ID, which is the ID's handle,
with its position as its index. -/
structure Valid (q : EvictionQueue) : Prop where
  nodup : (q.entries.toList.map fun e => e.item.requestID).Nodup
  handles : ∀ id e, q.handles id = some e ↔ e ∈ q.entries.toList ∧ e.item.requestID = id
  indexed : Indexed q
  allocated : ∀ e ∈ q.entries.toList, e.ptr < q.store.next

/-- The heap is in order, which takes an ordering policy that is one. -/
def Sorted (p : Policies) (q : EvictionQueue) : Prop :=
  ContainerHeap.Ordered p.lt (ContainerHeap.seq q.entries) q.entries.size

theorem Valid.mem_rest {l : List HeapEntry} (h : Valid q) (hl : q.entries.toList.Perm (e :: l)) :
    f ∈ l ↔ f ∈ q.entries.toList ∧ f.item.requestID ≠ e.item.requestID := by
  have hnodup := (hl.map fun e => e.item.requestID).nodup_iff.mp h.nodup
  rw [List.map_cons, List.nodup_cons] at hnodup
  rw [hl.mem_iff, List.mem_cons]
  constructor
  · intro hf
    refine ⟨.inr hf, fun hid => hnodup.1 ?_⟩
    rw [← hid]
    exact List.mem_map_of_mem hf
  · rintro ⟨rfl | hf, hid⟩
    · exact absurd rfl hid
    · exact hf

theorem Valid.taken (h : Valid q) (q₂ : EvictionQueue) (ht : ContainerHeap.Taken heap q e q')
    (hentries : q₂.entries = q'.pop.entries) (hstore : q₂.store = q'.pop.store)
    (hhandles : q₂.handles = update q.handles e.item.requestID none) :
    Valid q₂ ∧ q.entries.toList.Perm (e :: q₂.entries.toList) := by
  obtain ⟨hindexed, hmoved⟩ := indexed_of_swapped h.indexed (Nat.le_refl _) ht.swapped
  obtain ⟨hpop, hlist⟩ := hindexed.pop ht.last
  have hperm : q.entries.toList.Perm (e :: q₂.entries.toList) := by
    rw [hentries]
    refine hmoved.perm.symm.trans ?_
    rw [hlist]
    exact List.perm_append_singleton e _
  have hmem : ∀ f, f ∈ q₂.entries.toList ↔ f ∈ q.entries.toList ∧ f.item.requestID ≠ e.item.requestID :=
    fun f => h.mem_rest hperm
  refine ⟨⟨?_, fun id f => ?_, fun i f hf => ?_, fun f hf => ?_⟩, hperm⟩
  · have hnodup := (hperm.map fun e => e.item.requestID).nodup_iff.mp h.nodup
    rw [List.map_cons] at hnodup
    exact hnodup.of_cons
  · rw [hhandles, hmem]
    by_cases hid : id = e.item.requestID
    · subst hid
      rw [update_self]
      constructor
      · intro hf
        cases hf
      · rintro ⟨⟨-, hne⟩, he⟩
        exact absurd he hne
    · rw [update_of_ne hid, h.handles]
      constructor
      · rintro ⟨hf, rfl⟩
        exact ⟨⟨hf, hid⟩, rfl⟩
      · rintro ⟨⟨hf, -⟩, he⟩
        exact ⟨hf, he⟩
  · rw [hstore]
    rw [hentries] at hf
    exact hpop i f hf
  · rw [hstore, (pop_frame q').1, hmoved.next]
    exact h.allocated f ((hmem f).mp hf).1

theorem Valid.added {q₂ : EvictionQueue} (h : Valid q)
    (hfree : ∀ f ∈ q.entries.toList, f.item.requestID ≠ e.item.requestID)
    (hperm : q₂.entries.toList.Perm (e :: q.entries.toList))
    (hhandles : q₂.handles = update q.handles e.item.requestID (some e)) (hindexed : Indexed q₂)
    (hallocated : ∀ f, f = e ∨ f ∈ q.entries.toList → f.ptr < q₂.store.next) : Valid q₂ := by
  have hmem : ∀ f, f ∈ q₂.entries.toList ↔ f = e ∨ f ∈ q.entries.toList :=
    fun f => hperm.mem_iff.trans List.mem_cons
  refine ⟨?_, fun id f => ?_, hindexed, fun f hf => hallocated f ((hmem f).mp hf)⟩
  · rw [(hperm.map fun e => e.item.requestID).nodup_iff, List.map_cons, List.nodup_cons]
    refine ⟨fun hid => ?_, h.nodup⟩
    obtain ⟨f, hf, hid⟩ := List.mem_map.mp hid
    exact hfree f hf hid
  · rw [hhandles, hmem]
    by_cases hid : id = e.item.requestID
    · subst hid
      rw [update_self, Option.some.injEq]
      constructor
      · rintro rfl
        exact ⟨.inl rfl, rfl⟩
      · rintro ⟨rfl | hf, hid⟩
        · rfl
        · exact absurd hid (hfree f hf)
    · rw [update_of_ne hid, h.handles]
      constructor
      · rintro ⟨hf, rfl⟩
        exact ⟨.inr hf, rfl⟩
      · rintro ⟨rfl | hf, rfl⟩
        · exact absurd rfl hid
        · exact ⟨hf, rfl⟩

/-- **Removing by handle** takes the entry of the ID out, and nothing else. -/
theorem removeHandle_spec (h : Valid q) (requestID : String) :
    ∃ q₂, q.removeHandle p requestID = some q₂ ∧ Valid q₂ ∧ q₂.allInFlight = q.allInFlight ∧
      (∀ f, f ∈ q₂.entries.toList ↔ f ∈ q.entries.toList ∧ f.item.requestID ≠ requestID) ∧
      (p.WeakOrder → Sorted p q → Sorted p q₂) := by
  unfold removeHandle
  split
  · rename_i hnone
    refine ⟨q, rfl, h, rfl, fun f => ⟨fun hf => ⟨hf, fun hid => ?_⟩, fun hf => hf.1⟩, fun _ ho => ho⟩
    rw [(h.handles requestID f).mpr ⟨hf, hid⟩] at hnone
    cases hnone
  · rename_i e he
    obtain ⟨hmem, hid⟩ := (h.handles requestID e).mp he
    obtain ⟨i, hi⟩ := List.getElem?_of_mem hmem
    rw [Array.getElem?_toList] at hi
    obtain ⟨q', htaken, hremove, hsorted⟩ := ContainerHeap.remove_spec (H := heap) p.lt hi
    have hmoved := (indexed_of_swapped h.indexed (Nat.le_refl _) htaken.swapped).2
    have hframe := pop_frame q'
    rw [h.indexed i e hi, hremove]
    refine ⟨_, rfl, ?_⟩
    obtain ⟨hvalid, hperm⟩ := h.taken
      { q'.pop with handles := update q'.pop.handles requestID none } htaken rfl rfl
      (by rw [hframe.2.1, hmoved.handles, hid])
    refine ⟨hvalid, hframe.2.2.trans hmoved.allInFlight, fun f => ?_, fun _ ho => hsorted inferInstance ho⟩
    rw [← hid]
    exact h.mem_rest hperm

/-- **A round of `PopN`** takes an entry out, one that no other comes before. -/
theorem popEntry_spec (h : Valid q) (hpos : 0 < q.entries.size) :
    ∃ e q₂, q.popEntry p = some (e.item, q₂) ∧ Valid q₂ ∧ q.entries.toList.Perm (e :: q₂.entries.toList) ∧
      q₂.allInFlight = update q.allInFlight e.item.requestID none ∧
      (p.WeakOrder → Sorted p q → Sorted p q₂ ∧ ∀ f ∈ q.entries.toList, ¬p.lt f e) := by
  obtain ⟨e, he⟩ : ∃ e, q.entries[0]? = some e := ⟨_, Array.getElem?_eq_getElem hpos⟩
  obtain ⟨q', htaken, hpop, hsorted⟩ := ContainerHeap.pop_spec (H := heap) p.lt he
  have hmoved := (indexed_of_swapped h.indexed (Nat.le_refl _) htaken.swapped).2
  have hframe := pop_frame q'
  obtain ⟨hvalid, hperm⟩ := h.taken
    { q'.pop with
      handles := update q'.pop.handles e.item.requestID none
      allInFlight := update q'.pop.allInFlight e.item.requestID none } htaken rfl rfl
    (by rw [hframe.2.1, hmoved.handles])
  refine ⟨e, _, by rw [popEntry, hpop]; rfl, hvalid, hperm, ?_, fun _ ho => ⟨hsorted inferInstance ho, fun f hf => ?_⟩⟩
  · rw [hframe.2.2, hmoved.allInFlight]
  · obtain ⟨i, hi⟩ := List.getElem?_of_mem hf
    rw [Array.getElem?_toList] at hi
    have hroot := ContainerHeap.Ordered.root ho (Array.getElem?_eq_some_iff.mp hi).1
    rwa [ContainerHeap.seq_eq hi, ContainerHeap.seq_eq he] at hroot

variable (p) in
/-- **A new entry** joins the heap, under an ID that has none. -/
theorem addEntry_spec (item : EvictionItem) (h : Valid q)
    (hfree : ∀ f ∈ q.entries.toList, f.item.requestID ≠ item.requestID) :
    Valid (q.addEntry p item) ∧ (q.addEntry p item).allInFlight = q.allInFlight ∧
      (q.addEntry p item).entries.toList.Perm (⟨q.store.next, item⟩ :: q.entries.toList) ∧
      (p.WeakOrder → Sorted p q → Sorted p (q.addEntry p item)) := by
  obtain ⟨e, he⟩ : ∃ e : HeapEntry, e = ⟨q.store.next, item⟩ := ⟨_, rfl⟩
  have hswapped := ContainerHeap.push_swapped (H := heap) p.lt (s := { q with store := q.store.alloc 0 }) (x := e)
  obtain ⟨q', hq'⟩ : ∃ q', q' = ContainerHeap.push heap p.lt { q with store := q.store.alloc 0 } e := ⟨_, rfl⟩
  rw [← hq'] at hswapped
  have hadd : q.addEntry p item = { q' with handles := update q'.handles item.requestID (some e) } := by
    rw [hq', he]
    rfl
  have hindexed : Indexed (push { q with store := q.store.alloc 0 } e) := by
    refine Indexed.push (fun i f hf => ?_) fun f hf => ?_
    · exact (Heap.alloc_obj_of_lt _ (h.allocated f (mem_entries hf))).trans (h.indexed i f hf)
    · rw [he]
      exact Nat.ne_of_lt (h.allocated f hf)
  obtain ⟨hindexed, hmoved⟩ := indexed_of_swapped hindexed (Nat.le_of_eq (Array.size_push ..).symm) hswapped
  have hperm : q'.entries.toList.Perm (e :: q.entries.toList) := by
    refine hmoved.perm.trans ?_
    simp only [push, Array.toList_push]
    exact List.perm_append_singleton e _
  have hnext : q'.store.next = q.store.next + 1 := hmoved.next
  rw [hadd, ← he]
  refine ⟨h.added (e := e) (by rwa [he]) hperm ?_ hindexed ?_, hmoved.allInFlight, hperm, fun _ ho => ?_⟩
  · rw [hmoved.handles, he]
    rfl
  · intro f hf
    rw [hnext]
    rcases hf with rfl | hf
    · rw [he]
      exact Nat.lt_succ_self _
    · exact Nat.lt_succ_of_lt (h.allocated f hf)
  · have hsize := hperm.length_eq
    simp only [List.length_cons, Array.length_toList] at hsize
    have hord := ContainerHeap.push_ordered (H := heap) p.lt
      (s := { q with store := q.store.alloc 0 }) (x := e) ho
    rw [← hq'] at hord
    rw [Sorted, hsize]
    exact hord

end Valid

/-! ## What the queue holds -/

section Represents

variable {p : Policies} {q : EvictionQueue} {tracked : String → Option EvictionItem}

def items (q : EvictionQueue) : List EvictionItem := q.entries.toList.map (·.item)

/-- **The map has the tracked requests**, and the heap those the filter accepts. -/
structure Represents (p : Policies) (q : EvictionQueue) (tracked : String → Option EvictionItem) : Prop where
  valid : Valid q
  inFlight : q.allInFlight = tracked
  keyed : ∀ id item, tracked id = some item → item.requestID = id
  contents : ∀ item, item ∈ q.items ↔ tracked item.requestID = some item ∧ p.accept item = true

theorem new_represents : Represents p new fun _ => none where
  valid := {
    nodup := .nil
    handles := fun _ _ => ⟨nofun, fun h => (by cases h.1)⟩
    indexed := nofun
    allocated := fun _ h => by cases h }
  inFlight := rfl
  keyed := nofun
  contents := fun _ => ⟨nofun, fun h => (by cases h.1)⟩

theorem new_sorted : Sorted p new := fun c _ hc => absurd hc (Nat.not_lt_zero c)

variable {q' : EvictionQueue}

theorem Represents.forget {id : String} (h : Represents p q tracked) (hv : Valid q')
    (hf : q'.allInFlight = update q.allInFlight id none)
    (hm : ∀ item, item ∈ q'.items ↔ item ∈ q.items ∧ item.requestID ≠ id) :
    Represents p q' (update tracked id none) := by
  refine ⟨hv, by rw [hf, h.inFlight], fun id' item hid => ?_, fun item => ?_⟩
  · by_cases he : id' = id
    · rw [he, update_self] at hid
      cases hid
    · rw [update_of_ne he] at hid
      exact h.keyed id' item hid
  · rw [hm, h.contents]
    by_cases he : item.requestID = id
    · rw [he, update_self]
      constructor
      · rintro ⟨-, hne⟩
        exact absurd rfl hne
      · rintro ⟨hnone, -⟩
        cases hnone
    · rw [update_of_ne he]
      exact ⟨fun hi => hi.1, fun hi => ⟨hi, he⟩⟩

theorem Represents.remember {item : EvictionItem} (h : Represents p q tracked) (hv : Valid q')
    (hf : q'.allInFlight = update q.allInFlight item.requestID (some item))
    (hm : ∀ x, x ∈ q'.items ↔
      (x = item ∧ p.accept item = true) ∨ (x ∈ q.items ∧ x.requestID ≠ item.requestID)) :
    Represents p q' (update tracked item.requestID (some item)) := by
  refine ⟨hv, by rw [hf, h.inFlight], fun id x hx => ?_, fun x => ?_⟩
  · by_cases hid : id = item.requestID
    · rw [hid, update_self, Option.some.injEq] at hx
      rw [hid, hx]
    · rw [update_of_ne hid] at hx
      exact h.keyed id x hx
  · rw [hm, h.contents]
    by_cases hid : x.requestID = item.requestID
    · rw [hid, update_self, Option.some.injEq]
      constructor
      · rintro (⟨rfl, hacc⟩ | ⟨-, hne⟩)
        · exact ⟨rfl, hacc⟩
        · exact absurd rfl hne
      · rintro ⟨rfl, hacc⟩
        exact .inl ⟨rfl, hacc⟩
    · rw [update_of_ne hid]
      constructor
      · rintro (⟨rfl, -⟩ | ⟨hx, -⟩)
        · exact absurd rfl hid
        · exact hx
      · intro hx
        exact .inr ⟨hx, hid⟩

theorem mem_items_of {id : String}
    (h : ∀ f, f ∈ q'.entries.toList ↔ f ∈ q.entries.toList ∧ f.item.requestID ≠ id) (item : EvictionItem) :
    item ∈ q'.items ↔ item ∈ q.items ∧ item.requestID ≠ id := by
  simp only [items, List.mem_map, h]
  constructor
  · rintro ⟨f, ⟨hf, hid⟩, rfl⟩
    exact ⟨⟨f, hf, rfl⟩, hid⟩
  · rintro ⟨⟨f, hf, rfl⟩, hid⟩
    exact ⟨f, ⟨hf, hid⟩, rfl⟩

theorem Represents.untrack (h : Represents p q tracked) (requestID : String) :
    ∃ q', q.untrack p requestID = some q' ∧ Represents p q' (update tracked requestID none) ∧
      (p.WeakOrder → Sorted p q → Sorted p q') := by
  obtain ⟨q₁, hremove, hvalid, hflight, hmem, hsorted⟩ := removeHandle_spec (p := p) h.valid requestID
  refine ⟨{ q₁ with allInFlight := update q₁.allInFlight requestID none }, ?_, ?_, hsorted⟩
  · rw [EvictionQueue.untrack, hremove]
    rfl
  · refine h.forget ⟨hvalid.nodup, hvalid.handles, hvalid.indexed, hvalid.allocated⟩ ?_ ?_
    · rw [← hflight]
    · exact mem_items_of hmem

theorem Represents.track (h : Represents p q tracked) (item : EvictionItem) :
    ∃ q', q.track p item = some q' ∧ Represents p q' (update tracked item.requestID (some item)) ∧
      (p.WeakOrder → Sorted p q → Sorted p q') := by
  obtain ⟨q₁, hremove, hvalid, hflight, hmem, hsorted⟩ := removeHandle_spec (p := p) h.valid item.requestID
  obtain ⟨q₂, hq₂⟩ : ∃ q₂ : EvictionQueue, q₂ =
    { q₁ with allInFlight := update q₁.allInFlight item.requestID (some item) } := ⟨_, rfl⟩
  have htrack : q.track p item = if p.accept item then some (q₂.addEntry p item) else some q₂ := by
    rw [EvictionQueue.track, hremove, hq₂]
    rfl
  have hvalid₂ : Valid q₂ := by
    rw [hq₂]
    exact ⟨hvalid.nodup, hvalid.handles, hvalid.indexed, hvalid.allocated⟩
  have hsorted₂ : p.WeakOrder → Sorted p q → Sorted p q₂ := by
    rw [hq₂]
    exact hsorted
  have hflight₂ : q₂.allInFlight = update q.allInFlight item.requestID (some item) := by
    rw [hq₂, ← hflight]
  have hmem₂ : ∀ f, f ∈ q₂.entries.toList ↔ f ∈ q.entries.toList ∧ f.item.requestID ≠ item.requestID := by
    rw [hq₂]
    exact hmem
  rw [htrack]
  by_cases hacc : p.accept item = true
  · obtain ⟨hvalid₃, hflight₃, hperm, hsorted₃⟩ :=
      addEntry_spec p item hvalid₂ fun f hf => ((hmem₂ f).mp hf).2
    refine ⟨_, if_pos hacc, h.remember hvalid₃ (hflight₃.trans hflight₂) fun x => ?_,
      fun hw ho => hsorted₃ hw (hsorted₂ hw ho)⟩
    rw [← mem_items_of hmem₂, items, (hperm.map _).mem_iff, List.map_cons, List.mem_cons]
    simp only [hacc, and_true]
    rfl
  · refine ⟨_, if_neg hacc, h.remember hvalid₂ hflight₂ fun x => ?_, hsorted₂⟩
    rw [← mem_items_of hmem₂]
    exact ⟨.inr, fun hx => hx.resolve_left fun hi => hacc hi.2⟩

theorem Represents.popEntry (h : Represents p q tracked) (hpos : 0 < q.entries.size) :
    ∃ item q', q.popEntry p = some (item, q') ∧ Represents p q' (update tracked item.requestID none) ∧
      q.items.Perm (item :: q'.items) ∧
      (p.WeakOrder → Sorted p q → Sorted p q' ∧ ∀ x ∈ q.items, p.less x item = false) := by
  obtain ⟨e, q', hpop, hvalid, hperm, hflight, hsorted⟩ := popEntry_spec (p := p) h.valid hpos
  refine ⟨e.item, q', hpop, h.forget hvalid hflight (mem_items_of fun f => h.valid.mem_rest hperm),
    hperm.map _, fun hw ho => ?_⟩
  obtain ⟨ho', hleast⟩ := hsorted hw ho
  refine ⟨ho', fun x hx => ?_⟩
  obtain ⟨f, hf, rfl⟩ := List.mem_map.mp hx
  exact Bool.eq_false_iff.mpr (hleast f hf)

/-- The record without the items popped. -/
def released (tracked : String → Option EvictionItem) (items : List EvictionItem) : String → Option EvictionItem :=
  items.foldl (fun t item => update t item.requestID none) tracked

/-- As many items as there are, up to the number asked for, and none is left that
comes before one of them. -/
structure Popped (p : Policies) (n : Nat) (q : EvictionQueue) (items : List EvictionItem) (q' : EvictionQueue) :
    Prop where
  length : items.length = min n q.entries.size
  perm : q.items.Perm (items ++ q'.items)
  sorted : items.Pairwise fun x y => p.less y x = false
  least : ∀ x ∈ items, ∀ y ∈ q'.items, p.less y x = false

theorem Popped.nil {n : Nat} (h : min n q.entries.size = 0) : Popped p n q [] q :=
  ⟨h.symm, .refl _, .nil, nofun⟩

theorem Popped.cons {n : Nat} {q₁ : EvictionQueue} {item : EvictionItem} {items : List EvictionItem}
    (h : Popped p n q₁ items q') (hperm : q.items.Perm (item :: q₁.items))
    (hleast : ∀ x ∈ q.items, p.less x item = false) : Popped p (n + 1) q (item :: items) q' := by
  have hrest : q.items.Perm (item :: (items ++ q'.items)) := hperm.trans (h.perm.cons item)
  refine ⟨?_, hrest, ?_, fun x hx y hy => ?_⟩
  · have hsize : q.entries.size = q₁.entries.size + 1 := by simpa [EvictionQueue.items] using hperm.length_eq
    rw [List.length_cons, h.length, hsize, Nat.succ_min_succ]
  · refine .cons (fun x hx => ?_) h.sorted
    exact hleast x (hrest.mem_iff.mpr (.tail _ (List.mem_append_left _ hx)))
  · rcases List.mem_cons.mp hx with rfl | hx
    · exact hleast y (hrest.mem_iff.mpr (.tail _ (List.mem_append_right _ hy)))
    · exact h.least x hx y hy

theorem Represents.popLoop : ∀ (n : Nat) {q : EvictionQueue} {tracked : String → Option EvictionItem},
    Represents p q tracked → ∃ items q', q.popLoop p n = some (items, q') ∧
      Represents p q' (released tracked items) ∧
      (p.WeakOrder → Sorted p q → Sorted p q' ∧ Popped p n q items q')
  | 0, q, _, h => ⟨[], q, rfl, h, fun _ ho => ⟨ho, .nil (Nat.zero_min _)⟩⟩
  | n + 1, q, tracked, h => by
    by_cases hpos : 0 < q.entries.size
    · obtain ⟨item, q₁, hpop, hrep, hperm, hsorted⟩ := h.popEntry hpos
      obtain ⟨items, q', hloop, hrep', hpopped⟩ := Represents.popLoop n hrep
      refine ⟨item :: items, q', ?_, hrep', fun hw ho => ?_⟩
      · rw [EvictionQueue.popLoop, if_pos hpos, hpop]
        simp only [Option.bind_eq_bind, Option.bind_some, hloop]
      · obtain ⟨ho₁, hleast⟩ := hsorted hw ho
        obtain ⟨ho', hrest⟩ := hpopped hw ho₁
        exact ⟨ho', hrest.cons hperm hleast⟩
    · refine ⟨[], q, by rw [EvictionQueue.popLoop, if_neg hpos], h, fun _ ho => ⟨ho, .nil ?_⟩⟩
      omega

end Represents

/-! ## Runs -/

/-- A call of the queue. -/
inductive Op
  | track (item : EvictionItem)
  | untrack (requestID : String)
  | popN (n : Int)
  deriving Repr, DecidableEq

/-- The queue beside the items tracked and neither untracked nor popped since. -/
structure Recorded where
  queue : EvictionQueue
  tracked : String → Option EvictionItem

def Recorded.new : Recorded := { queue := EvictionQueue.new, tracked := fun _ => none }

/-- One call; `none` where it panics and leaves the queue half written. -/
def step (p : Policies) (maxCap : Nat) (s : Recorded) : Op → Option Recorded
  | .track item => (s.queue.track p item).map fun q =>
    { queue := q, tracked := update s.tracked item.requestID (some item) }
  | .untrack requestID => (s.queue.untrack p requestID).map fun q =>
    { queue := q, tracked := update s.tracked requestID none }
  | .popN n =>
    if makes maxCap n then
      (s.queue.popN p maxCap n).map fun r => { queue := r.2, tracked := released s.tracked r.1 }
    else some s

section Runs

variable {p : Policies} {maxCap : Nat} {s s' : Recorded}

theorem Represents.popN {q : EvictionQueue} {tracked : String → Option EvictionItem} (h : Represents p q tracked)
    {n : Int} (h0 : 0 ≤ n) (hn : n ≤ maxCap) :
    ∃ items q', q.popN p maxCap n = some (items, q') ∧ Represents p q' (released tracked items) ∧
      (p.WeakOrder → Sorted p q → Sorted p q' ∧ Popped p n.toNat q items q') := by
  rw [EvictionQueue.popN, if_pos (by simp only [makes, h0, hn, and_self, decide_true])]
  exact Represents.popLoop n.toNat h

theorem Represents.popN_one {q q' : EvictionQueue} {tracked : String → Option EvictionItem} {items : List EvictionItem}
    (h : Represents p q tracked) (hpop : q.popN p maxCap 1 = some (items, q')) :
    (items = [] ∧ q' = q) ∨
      ∃ item, items = [item] ∧ item ∈ q.items ∧ Represents p q' (update tracked item.requestID none) := by
  simp only [EvictionQueue.popN] at hpop
  split at hpop
  · by_cases hpos : 0 < q.entries.size
    · obtain ⟨item, q₁, he, hr, hperm, -⟩ := h.popEntry hpos
      simp only [Int.toNat_one, EvictionQueue.popLoop, hpos, if_true, he, Option.bind_eq_bind, Option.bind_some,
        Option.some.injEq, Prod.mk.injEq] at hpop
      obtain ⟨rfl, rfl⟩ := hpop
      exact .inr ⟨item, rfl, hperm.mem_iff.mpr (.head _), hr⟩
    · simp only [Int.toNat_one, EvictionQueue.popLoop, hpos, if_false, Option.some.injEq, Prod.mk.injEq] at hpop
      exact .inl ⟨hpop.1.symm, hpop.2.symm⟩
  · cases hpop

variable (maxCap) in
theorem step_represents (h : Represents p s.queue s.tracked) (op : Op) :
    ∃ s', step p maxCap s op = some s' ∧ Represents p s'.queue s'.tracked ∧
      (p.WeakOrder → Sorted p s.queue → Sorted p s'.queue) := by
  cases op with
  | track item =>
    obtain ⟨q', hq, hr, ho⟩ := h.track item
    exact ⟨_, by rw [step, hq]; rfl, hr, ho⟩
  | untrack requestID =>
    obtain ⟨q', hq, hr, ho⟩ := h.untrack requestID
    exact ⟨_, by rw [step, hq]; rfl, hr, ho⟩
  | popN n =>
    by_cases hn : 0 ≤ n ∧ n ≤ maxCap
    · obtain ⟨items, q', hq, hr, ho⟩ := h.popN hn.1 hn.2
      exact ⟨_, by rw [step, if_pos (by simp only [makes, hn, and_self, decide_true]), hq]; rfl, hr,
        fun hw hs => (ho hw hs).1⟩
    · exact ⟨s, by rw [step, if_neg (by simpa only [makes, decide_eq_true_eq] using hn)], h, fun _ hs => hs⟩

theorem represents_sorted_of_reaches [p.WeakOrder] (h : Reaches (step p maxCap) Any Recorded.new s) :
    Represents p s.queue s.tracked ∧ Sorted p s.queue := by
  refine h.invariant (fun s => Represents p s.queue s.tracked ∧ Sorted p s.queue)
    ⟨new_represents, new_sorted⟩ fun s op s' hs _ hstep => ?_
  obtain ⟨s'', hstep', hr, ho⟩ := step_represents maxCap hs.1 op
  rw [hstep, Option.some.injEq] at hstep'
  rw [hstep']
  exact ⟨hr, ho inferInstance hs.2⟩

/-- **The representation of the eviction queue**: after any calls the heap and
the maps hold what was tracked and neither untracked nor popped, every further
call goes through, and `PopN` with a count `make` accepts returns the items to
evict first. -/
theorem represents_of_reaches [p.WeakOrder] (h : Reaches (step p maxCap) Any Recorded.new s) :
    Represents p s.queue s.tracked ∧ (∀ op, ∃ s', step p maxCap s op = some s') ∧
      ∀ n : Int, 0 ≤ n → n ≤ maxCap → ∃ items q', s.queue.popN p maxCap n = some (items, q') ∧
        Represents p q' (released s.tracked items) ∧ Popped p n.toNat s.queue items q' := by
  have hinv := represents_sorted_of_reaches h
  refine ⟨hinv.1, fun op => ?_, fun n h0 hn => ?_⟩
  · obtain ⟨s', hs', -⟩ := step_represents maxCap hinv.1 op
    exact ⟨s', hs'⟩
  · obtain ⟨items, q', hpop, hr, ho⟩ := hinv.1.popN h0 hn
    exact ⟨items, q', hpop, hr, (ho inferInstance hinv.2).2⟩

end Runs

end EvictionQueue

/-! ## The policies in the repository -/

/-- The lowest priority goes first, and among equals the one dispatched last. -/
def priorityThenTime : Policies where
  less a b := if a.priority ≠ b.priority then a.priority < b.priority else a.dispatchTime > b.dispatchTime
  accept item := item.priority < 0

theorem priorityThenTime_less (a b : EvictionItem) : priorityThenTime.less a b = true ↔
    a.priority < b.priority ∨ a.priority = b.priority ∧ b.dispatchTime < a.dispatchTime := by
  simp only [priorityThenTime]
  split
  · rename_i h
    simp only [decide_eq_true_eq]
    omega
  · rename_i h
    simp only [decide_eq_true_eq]
    omega

instance : priorityThenTime.WeakOrder where
  irrefl a := by
    rw [priorityThenTime_less]
    omega
  trans a b c := by
    simp only [priorityThenTime_less]
    omega
  incomp_trans a b c := by
    simp only [priorityThenTime_less]
    omega

namespace EvictionQueue

/-- Two requests are tracked, one again with a lower priority, and one is popped. -/
def sampleCalls : List Op :=
  [.track ⟨"a", -1, 10, "http://10.0.0.1:8000", some 0⟩, .track ⟨"b", -2, 20, "http://10.0.0.2:8000", some 1⟩,
    .track ⟨"a", -3, 30, "http://10.0.0.1:8000", some 2⟩, .popN 1]

theorem represents_of_reaches_after_pop :
    ∃ s, Reaches (step priorityThenTime 1024) Any Recorded.new s ∧ s.queue.entries.size = 1 ∧
      Represents priorityThenTime s.queue s.tracked ∧ (∃ s', step priorityThenTime 1024 s (.untrack "b") = some s') ∧
      ∃ items q', s.queue.popN priorityThenTime 1024 2 = some (items, q') ∧
        Represents priorityThenTime q' (released s.tracked items) ∧ Popped priorityThenTime 2 s.queue items q' := by
  obtain ⟨s, hs, hp⟩ := exists_of_run (step priorityThenTime 1024) Recorded.new sampleCalls
    (fun s => s.queue.entries.size = 1) (by decide +kernel)
  obtain ⟨hrep, hgoes, hpops⟩ := represents_of_reaches hs
  exact ⟨s, hs, hp, hrep, hgoes _, hpops 2 (by decide) (by decide)⟩

/-- `PopN` of a negative count panics in `make`, with a request in the heap. -/
theorem popN_negative_panics :
    ∃ s, Reaches (step priorityThenTime 1024) Any Recorded.new s ∧ s.queue.entries.size = 1 ∧
      s.queue.popN priorityThenTime 1024 (-1) = none := by
  obtain ⟨s, hs, hp⟩ := exists_of_run (step priorityThenTime 1024) Recorded.new sampleCalls
    (fun s => s.queue.entries.size = 1) (by decide +kernel)
  exact ⟨s, hs, hp, rfl⟩

end EvictionQueue

end InferenceScheduler.Eviction
