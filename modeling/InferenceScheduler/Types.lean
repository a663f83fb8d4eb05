/-
The vocabulary the flow-control packages share: flow keys, queue outcomes
and Go error values up to what `errors.Is` sees of them.
-/
import Mathlib.Logic.Basic

namespace InferenceScheduler

structure FlowKey where
  id : String
  priority : Int
  deriving DecidableEq, Repr, Inhabited

/-- `types.QueueOutcome`. -/
inductive QueueOutcome
  | notYetFinalized
  | dispatched
  | rejectedCapacity
  | rejectedOther
  | evictedTTL
  | evictedContextCancelled
  | evictedOther
  deriving DecidableEq, Repr, Inhabited

/-- The outcomes of a request that never entered a queue. -/
def QueueOutcome.isRejected : QueueOutcome → Bool
  | .rejectedCapacity | .rejectedOther => true
  | _ => false

/-- The outcomes of a request that left a queue without being dispatched. -/
def QueueOutcome.isEvicted : QueueOutcome → Bool
  | .evictedTTL | .evictedContextCancelled | .evictedOther => true
  | _ => false

/-- A Go error value. `errorf` is `fmt.Errorf`, with the operands of its `%w` verbs;
`foreign` is one made elsewhere, given by the sentinels `errors.Is` finds in it. -/
inductive GoError
  | sentinel (text : String)
  | errorf (format : String) (wraps : List GoError)
  | foreign (name : String) (finds : List String)
  deriving Repr, Inhabited

namespace GoError

mutual
/-- `errors.Is(err, target)` for a sentinel target. -/
def is : GoError → String → Bool
  | .sentinel text, target => text == target
  | .errorf _ wraps, target => isAny wraps target
  | .foreign _ finds, target => finds.contains target

def isAny : List GoError → String → Bool
  | [], _ => false
  | e :: es, target => e.is target || isAny es target
end

@[simp] theorem is_sentinel (text target : String) : (sentinel text).is target = (text == target) := by
  rw [is]

@[simp] theorem is_errorf (format : String) (wraps : List GoError) (target : String) :
    (errorf format wraps).is target = wraps.any (·.is target) := by
  rw [is]
  induction wraps with
  | nil => simp [isAny]
  | cons e es ih => simp [isAny, ih]

end GoError

/-! ## Sentinels -/

/-- `types.ErrRejected`. -/
def errRejected : String := "request rejected pre-queue"
/-- `types.ErrEvicted`. -/
def errEvicted : String := "request evicted from queue"
/-- `types.ErrQueueAtCapacity`. -/
def errQueueAtCapacity : String := "queue at capacity"
/-- `types.ErrTTLExpired`. -/
def errTTLExpired : String := "request TTL expired"
/-- `types.ErrContextCancelled`. -/
def errContextCancelled : String := "request context cancelled"
/-- `types.ErrFlowControllerNotRunning`. -/
def errFlowControllerNotRunning : String := "flow controller is not running"
/-- `contracts.ErrFlowInstanceNotFound`. -/
def errFlowInstanceNotFound : String := "flow instance not found"
/-- `contracts.ErrFlowIDEmpty`. -/
def errFlowIDEmpty : String := "flow ID cannot be empty"
/-- `contracts.ErrPriorityBandNotFound`. -/
def errPriorityBandNotFound : String := "priority band not found"
/-- `contracts.ErrShardDraining`. -/
def errShardDraining : String := "shard is draining"
/-- `context.Canceled`. -/
def ctxCanceled : String := "context canceled"
/-- `context.DeadlineExceeded`. -/
def ctxDeadlineExceeded : String := "context deadline exceeded"

end InferenceScheduler
