/-
The list queue as a `SafeQueue` (`framework/plugins/queue/listqueue.go`): a
`container/list` of items in the order of their `Add`, and handles that know
their element and the queue that made them.
-/
import InferenceScheduler.Queue.Handles

namespace InferenceScheduler.Queue

/-- `listQueue`. An element is known by its handle. -/
structure ListQueue (ι : Type*) where
  requests : List (HandleId × ι) := []
  byteSize : BitVec 64 := 0

/-- A list queue with the memory its methods run on. -/
structure ListState (κ ι : Type*) where
  mem : Memory κ ι
  list : ListQueue ι

namespace ListState

variable {κ ι : Type*} (st : ListState κ ι) (size : ι → BitVec 64)

/-- `Add` to the queue `q`. -/
def add [DecidableEq ι] (q : κ) (x : ι) : ListState κ ι :=
  { mem := st.mem.newHandle x (.listItemHandle x q false)
    list :=
      { requests := st.list.requests ++ [(st.mem.objs.next, x)]
        byteSize := st.list.byteSize + size x } }

/-- `Remove` from the queue `q`. `container/list` leaves an element alone that
it has already removed. -/
def remove [DecidableEq κ] (q : κ) (handle : Option HandleId) : ListState κ ι × Except QueueError ι :=
  match handle with
  | none => (st, .error .invalidQueueItemHandle)
  | some h =>
    if (st.mem.objs.obj h).isInvalidated then (st, .error .invalidQueueItemHandle)
    else
      match st.mem.objs.obj h with
      | .listItemHandle x owner _ =>
        if owner ≠ q then (st, .error .queueItemNotFound)
        else
          ({ mem := st.mem.invalidate h
             list :=
              { requests := st.list.requests.filter (·.1 ≠ h)
                byteSize := st.list.byteSize - size x } }, .ok x)
      | _ => (st, .error .invalidQueueItemHandle)

def cleanup (predicate : ι → Bool) : ListState κ ι × List ι :=
  let removedItems := (st.list.requests.filter (predicate ·.2)).map Prod.snd
  ({ mem := st.mem.invalidateItems removedItems
     list :=
      { requests := st.list.requests.filter (!predicate ·.2)
        byteSize := removedItems.foldl (fun b x => b - size x) st.list.byteSize } }, removedItems)

def drain : ListState κ ι × List ι :=
  let removedItems := st.list.requests.map Prod.snd
  ({ mem := st.mem.invalidateItems removedItems, list := {} }, removedItems)

end ListState

end InferenceScheduler.Queue
