/-
`controller/internal/item.go`: the life of one request in the flow controller.
A `FlowItem` is finalized once, by whichever goroutine gets into its
`sync.Once` first; the others wait and find the state it stored.

`finalizeStep` is one atomic step of `Finalize` or `FinalizeWithOutcome`;
`Paired` is the law between an outcome and its error that the comments of
`types/outcomes.go` state.
-/
import InferenceScheduler.Types

namespace InferenceScheduler.Controller

structure FinalState where
  outcome : QueueOutcome
  err : Option GoError
  deriving Inhabited

/-- The caller of `EnqueueAndWait`, the run loop, and the workers of `evictAll`. -/
inductive Agent (Tid : Type)
  | call (t : Tid)
  | run
  | evictor (w : Fin 4)
  deriving DecidableEq

/-- A `sync.Once`, with the goroutine that runs or ran its body. -/
inductive OnceState (Tid : Type)
  | fresh
  | running (a : Agent Tid)
  | done (a : Agent Tid)

/-- `done` is given by what was sent on it, how much of that was received, and whether
it is closed. `accepted`: `Submit` or `SubmitOrBlock` returned nil. -/
structure FlowItem (Tid : Type) where
  key : FlowKey
  byteSize : Nat
  handle : Option Nat := none
  once : OnceState Tid := .fresh
  finalState : Option FinalState := none
  sent : List FinalState := []
  received : Nat := 0
  closed : Bool := false
  accepted : Bool := false
  dispatched : Bool := false
  deriving Inhabited

def inferOutcome (cause : GoError) (isQueued : Bool) : FinalState :=
  let specific : GoError × QueueOutcome :=
    if cause.is errTTLExpired || cause.is ctxDeadlineExceeded then (.sentinel errTTLExpired, .evictedTTL)
    else if cause.is ctxCanceled then
      (.errorf "%w: %w" [.sentinel errContextCancelled, cause], .evictedContextCancelled)
    else (cause, .evictedOther)
  if isQueued then ⟨specific.2, some (.errorf "%w: %w" [.sentinel errEvicted, specific.1])⟩
  else ⟨.rejectedOther, some (.errorf "%w: %w" [.sentinel errRejected, specific.1])⟩

/-- `Finalize(cause)` or `FinalizeWithOutcome(outcome, err)`. -/
inductive Finalization
  | cause (err : GoError)
  | outcome (fs : FinalState)

/-- Where a goroutine stands in a finalization call. -/
inductive FinalizePc
  /-- `fi.onceFinalize.Do` -/
  | enter (f : Finalization)
  /-- `fi.Handle()` -/
  | load (cause : GoError)
  /-- `fi.finalState.Store(finalState)` -/
  | store (fs : FinalState)
  /-- `fi.done <- finalState` -/
  | send (fs : FinalState)
  /-- `close(fi.done)`, the end of the body -/
  | close

variable {Tid : Type}

/-- The next step of a finalization call; no program counter means that it returns.
A call that finds the body running waits, as the send does for room. -/
def finalizeStep (a : Agent Tid) (item : FlowItem Tid) : FinalizePc → Option (FlowItem Tid × Option FinalizePc)
  | .enter f =>
    match item.once with
    | .fresh =>
      let item := { item with once := .running a }
      match f with
      | .cause err => some (item, some (.load err))
      | .outcome fs => some (item, some (.store fs))
    | .running _ => none
    | .done _ => some (item, none)
  | .load cause => some (item, some (.store (inferOutcome cause item.handle.isSome)))
  | .store fs => some ({ item with finalState := some fs }, some (.send fs))
  | .send fs =>
    if item.sent.length - item.received < 1 ∧ item.closed = false then
      some ({ item with sent := item.sent ++ [fs] }, some .close)
    else none
  | .close => some ({ item with closed := true, once := .done a }, none)

/-! ## Outcomes and errors -/

/-- The outcome and the error of a finalized request belong together. -/
structure Paired (fs : FinalState) : Prop where
  finalized : fs.outcome ≠ .notYetFinalized
  dispatched : fs.outcome = .dispatched ↔ fs.err = none
  rejected : fs.outcome.isRejected = true → ∃ e, fs.err = some e ∧ e.is errRejected = true
  evicted : fs.outcome.isEvicted = true → ∃ e, fs.err = some e ∧ e.is errEvicted = true

theorem Paired.dispatch : Paired ⟨.dispatched, none⟩ :=
  ⟨by simp, by simp, by simp [QueueOutcome.isRejected], by simp [QueueOutcome.isEvicted]⟩

theorem Paired.reject {o : QueueOutcome} {format : String} {es : List GoError} (ho : o.isRejected = true) :
    Paired ⟨o, some (.errorf format (.sentinel errRejected :: es))⟩ := by
  cases o <;> simp_all [QueueOutcome.isRejected] <;>
    exact ⟨by simp, by simp, by simp, by simp [QueueOutcome.isEvicted]⟩

theorem Paired.evict {o : QueueOutcome} {format : String} {es : List GoError} (ho : o.isEvicted = true) :
    Paired ⟨o, some (.errorf format (.sentinel errEvicted :: es))⟩ := by
  cases o <;> simp_all [QueueOutcome.isEvicted] <;>
    exact ⟨by simp, by simp, by simp [QueueOutcome.isRejected], by simp⟩

theorem inferOutcome_paired (cause : GoError) (isQueued : Bool) : Paired (inferOutcome cause isQueued) := by
  unfold inferOutcome
  cases isQueued with
  | false => exact .reject rfl
  | true =>
    split
    · exact .evict rfl
    · split
      · exact .evict rfl
      · exact .evict rfl

theorem inferOutcome_ne_dispatched (cause : GoError) (isQueued : Bool) :
    (inferOutcome cause isQueued).outcome ≠ .dispatched := by
  intro h
  have herr := (inferOutcome_paired cause isQueued).dispatched.mp h
  unfold inferOutcome at herr
  cases isQueued <;> simp at herr

end InferenceScheduler.Controller
