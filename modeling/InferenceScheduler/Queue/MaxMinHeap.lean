/-
The max-min heap as a `SafeQueue` (`framework/plugins/queue/maxminheap.go`). The
index of an item is written in the item's handle, which lives in the shared
memory, so every method runs on the heap and the memory together.
-/
import InferenceScheduler.Queue.Handles
import InferenceScheduler.Queue.SiftOrder

namespace InferenceScheduler.Queue

/-- A handle is its own value in the map, so the map is the set of its keys. -/
structure MaxMinHeap (ι : Type*) where
  items : Array ι := #[]
  handles : Finset HandleId := ∅
  byteSize : BitVec 64 := 0

/-- A heap with the memory its methods run on. -/
structure HeapState (κ ι : Type*) where
  mem : Memory κ ι
  heap : MaxMinHeap ι

namespace HeapState

variable {κ ι : Type*} (st : HeapState κ ι)

/-- `h.handles[item.Handle()].index = i`, which panics when the map does not
have the handle. -/
def setIndex (x : ι) (i : Nat) : HeapState κ ι :=
  match st.mem.handle x with
  | none => { st with mem := st.mem.panic }
  | some h =>
    if h ∈ st.heap.handles then
      { st with mem := { st.mem with objs := st.mem.objs.set h ((st.mem.objs.obj h).withIndex i) } }
    else { st with mem := st.mem.panic }

/-- The index of the item at `i` is written in its handle. -/
def reindex (i : Nat) : HeapState κ ι :=
  match st.heap.items[i]? with
  | none => { st with mem := st.mem.panic }
  | some x => st.setIndex x i

def swap (i j : Nat) : HeapState κ ι :=
  ({ st with heap := { st.heap with items := st.heap.items.swapIfInBounds i j } }.reindex i).reindex j

@[simp] theorem setIndex_heap (x : ι) (i : Nat) : (st.setIndex x i).heap = st.heap := by
  unfold setIndex
  split
  · rfl
  · split <;> rfl

@[simp] theorem reindex_heap (i : Nat) : (st.reindex i).heap = st.heap := by
  unfold reindex
  split
  · rfl
  · exact st.setIndex_heap ..

@[simp] theorem swap_heap (i j : Nat) :
    (st.swap i j).heap = { st.heap with items := st.heap.items.swapIfInBounds i j } := by
  simp [swap]

/-- The loops of the heap run on its items and `swap`. -/
def slots (κ ι : Type*) : Slots (HeapState κ ι) ι where
  items st := st.heap.items
  swap := swap
  items_swap st i j := by rw [swap_heap]

variable (less : ι → ι → Bool) (size : ι → BitVec 64)

def push [DecidableEq ι] (x : ι) : HeapState κ ι :=
  let n := st.heap.items.size
  let st : HeapState κ ι :=
    { mem := st.mem.newHandle x (.heapItem n false)
      heap := { st.heap with
        items := st.heap.items.push x
        handles := insert st.mem.objs.next st.heap.handles } }
  up (slots κ ι) less st n

def add [DecidableEq ι] (x : ι) : HeapState κ ι :=
  let st := st.push less x
  { st with heap := { st.heap with byteSize := st.heap.byteSize + size x } }

/-- The last item is cut off the slice and its handle deleted. -/
def dropLast (h : HandleId) (x : ι) : HeapState κ ι :=
  { st with heap :=
    { items := st.heap.items.pop
      handles := st.heap.handles.erase h
      byteSize := st.heap.byteSize - size x } }

def remove (handle : Option HandleId) : HeapState κ ι × Except QueueError ι :=
  match handle with
  | none => (st, .error .invalidQueueItemHandle)
  | some h =>
    if (st.mem.objs.obj h).isInvalidated then (st, .error .invalidQueueItemHandle)
    else
      match st.mem.objs.obj h with
      | .heapItem i _ =>
        if h ∉ st.heap.handles then (st, .error .queueItemNotFound)
        else
          match st.heap.items[i]? with
          -- an index beyond the slice panics
          | none => ({ st with mem := st.mem.panic }, .error .queueItemNotFound)
          | some x =>
            let n := st.heap.items.size - 1
            let st :=
              if i < n then down (slots κ ι) less ((st.swap i n).dropLast size h x) i
              else st.dropLast size h x
            ({ st with mem := st.mem.invalidate h }, .ok x)
      | _ => (st, .error .invalidQueueItemHandle)

/-- An item `Cleanup` removes. -/
def discard (x : ι) : HeapState κ ι :=
  { mem := st.mem.invalidateItem x
    heap := { st.heap with
      handles := match st.mem.handle x with
        | some h => st.heap.handles.erase h
        | none => st.heap.handles
      byteSize := st.heap.byteSize - size x } }

/-- The loop of `Cleanup` that writes the indices of the items kept. -/
def reindexAll (st : HeapState κ ι) : Nat → HeapState κ ι
  | 0 => st
  | n + 1 => (reindexAll st n).reindex n

def cleanup (predicate : ι → Bool) : HeapState κ ι × List ι :=
  let items := st.heap.items.toList
  let removedItems := items.filter predicate
  let st := removedItems.foldl (discard · size) st
  if removedItems = [] then (st, removedItems)
  else
    let itemsToKeep := (items.filter (!predicate ·)).toArray
    let st := { st with heap := { st.heap with items := itemsToKeep } }
    (heapify (slots κ ι) less (st.reindexAll itemsToKeep.size) (itemsToKeep.size / 2), removedItems)

def drain : HeapState κ ι × List ι :=
  ({ mem := st.mem.invalidateItems st.heap.items.toList, heap := {} }, st.heap.items.toList)

end HeapState

def MaxMinHeap.peekHead {ι : Type*} (h : MaxMinHeap ι) : Option ι := h.items[0]?

def MaxMinHeap.peekTail {ι : Type*} (less : ι → ι → Bool) (h : MaxMinHeap ι) : Option ι :=
  match h.items.size with
  | 0 => none
  | 1 => h.items[0]?
  | 2 => h.items[1]?
  | _ => if lessAt less h.items 1 2 then h.items[2]? else h.items[1]?

end InferenceScheduler.Queue
