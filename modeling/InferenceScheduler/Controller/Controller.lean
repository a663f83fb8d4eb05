/-
`controller/controller.go` and `controller/internal/processor.go`: the flow
controller as a system of goroutines. Any number of `EnqueueAndWait` calls, the
processor's `Run` loop, its sweep and the workers of
`processAllQueuesConcurrently` take turns, one atomic step at a time.

A label says who moves and what the registry answers, so what holds of all runs
holds whatever the registry does. There is one shard, and so one processor. A
managed queue is a list of items, of which the label chooses the one it gives.
-/
import InferenceScheduler.Controller.Item
import InferenceScheduler.Lib.Run
import Mathlib.Data.Fintype.Basic
import Mathlib.Data.Rat.Defs

namespace InferenceScheduler.Controller

open Function (update update_self)

/-! ## Errors of the controller and the processor -/

/-- `fmt.Errorf("%w: request not accepted: %w", types.ErrRejected, err)` -/
def notAccepted (err : GoError) : GoError :=
  .errorf "%w: request not accepted: %w" [.sentinel errRejected, err]

def errNoShards : String := "no viable active shards available"

/-- How `selectDistributionCandidates` fails. -/
def noShardsErr : GoError := .errorf "%w for flow %s" [.sentinel errNoShards]

/-- `fmt.Errorf("%w: %w", types.ErrRejected, err)` -/
def rejectedErr (err : GoError) : GoError := .errorf "%w: %w" [.sentinel errRejected, err]

/-- `enqueue`'s rejections for a reason of its own (`format`). -/
def enqueueRejection (format : String) (err : GoError) : FinalState :=
  ⟨.rejectedOther, some (rejectedErr (.errorf format [err]))⟩

def queueRejection : GoError → FinalState :=
  enqueueRejection "configuration error: failed to get queue for flow key %s: %w"

def bandRejection : GoError → FinalState :=
  enqueueRejection "configuration error: failed to get priority band for priority %d: %w"

def addRejection : GoError → FinalState :=
  enqueueRejection "failed to add item to queue for flow key %s: %w"

def capacityRejection : FinalState :=
  ⟨.rejectedCapacity, some (rejectedErr (.sentinel errQueueAtCapacity))⟩

/-- For the items `shutdown` drains and the calls that find the controller stopped. -/
def shutdownRejection : FinalState :=
  ⟨.rejectedOther, some (rejectedErr (.sentinel errFlowControllerNotRunning))⟩

/-- What `evictAll` gives the items of the queues. -/
def shutdownEviction : FinalState :=
  ⟨.evictedOther, some (.errorf "%w: %w" [.sentinel errEvicted, .sentinel errFlowControllerNotRunning])⟩

/-! ## Goroutines -/

/-- What a call reads of its `FlowControlRequest`. -/
structure Request where
  key : FlowKey
  byteSize : Nat
  deriving Inhabited

structure CtxDone where
  err : GoError
  cause : GoError

/-- No active shard, a shard without the flow's queue, or a candidate. -/
inductive Candidates
  | noShards
  | skipped
  | found
  deriving DecidableEq

/-- Where a goroutine stands in `EnqueueAndWait`. -/
inductive CallPc
  | idle
  /-- `fc.registry.WithConnection`, before the callback -/
  | connecting (r : Request)
  /-- `case <-fc.parentCtx.Done()`, at the head of the distribution loop -/
  | lifecycle (r : Request)
  /-- `tryDistribution`: `NewItem` and `selectDistributionCandidates` -/
  | candidates (r : Request)
  /-- `Submit`: the shutdown check, and the `select` -/
  | submit (i : Nat)
  | submitSelect (i : Nat)
  /-- `SubmitOrBlock`: the shutdown check, and the `select` -/
  | block (i : Nat)
  | blockSelect (i : Nat)
  /-- `tryDistribution` finalizes the item it keeps -/
  | failing (i : Nat) (pc : FinalizePc)
  /-- `finalState := item.FinalState()` after a failed distribution -/
  | failed (i : Nat)
  /-- `awaitFinalization`: the `select` -/
  | await (i : Nat)
  /-- `awaitFinalization`: `item.Finalize(cause)`, then the load of the state -/
  | expiring (i : Nat) (pc : FinalizePc)
  | expired (i : Nat)
  /-- `errors.Is(err, contracts.ErrShardDraining)` -/
  | decide (i : Nat) (fs : FinalState)
  /-- the callback returns; `src` is the item whose final state it returns -/
  | leaving (src : Option Nat) (fs : FinalState)
  | returned (src : Option Nat) (fs : FinalState)
  /-- a nil `FinalState` was dereferenced -/
  | panicked

/-- Where the processor stands in `Run`. -/
inductive RunPc
  | unstarted
  /-- the `select` of the main loop -/
  | select
  /-- `enqueue`: the external finalization check -/
  | loadState (i : Nat)
  /-- `sp.shard.ManagedQueue(key)` -/
  | lookup (i : Nat)
  /-- `sp.shard.PriorityBandAccessor(key.Priority)` -/
  | band (i q : Nat)
  /-- `sp.hasCapacity(...)` -/
  | capacity (i q : Nat)
  /-- `managedQ.Add(item)` -/
  | add (i q : Nat)
  | rejecting (i : Nat) (pc : FinalizePc)
  /-- `dispatchCycle`, up to its loop -/
  | cycleBegin
  /-- the loop, over the priorities left with their ceilings -/
  | cycle (saturation : ℚ) (levels : List (Int × ℚ))
  /-- `dispatchItem`: `sp.shard.ManagedQueue(key)` -/
  | dispatch (i : Nat) (saturation : ℚ) (levels : List (Int × ℚ))
  /-- `managedQ.Remove(itemAcc.Handle())` -/
  | remove (i q : Nat)
  | dispatched (i : Nat) (pc : FinalizePc)
  /-- `shutdown`: `sp.isShuttingDown.Store(true)` -/
  | flag
  /-- the `select` of the drain loop -/
  | drain
  | draining (i : Nat) (pc : FinalizePc)
  /-- `evictAll` -/
  | evicting
  /-- `sp.wg.Wait()` -/
  | wait
  | returned

/-- The two uses of `processAllQueuesConcurrently`. -/
inductive PoolId
  | sweep
  | evict
  deriving DecidableEq

/-- The goroutine that runs a pool: `waiting` is the `select` of `runCleanupSweep`,
`levels` the call of `AllOrderedPriorityLevels`, `collect` the collection of queues. -/
inductive PoolPc
  | unstarted
  | waiting
  | levels
  | collect (priorities : List Int)
  | stopped

/-- Waiting for a task, before the queue's lookup, before `Cleanup` or `Drain`, or
finalizing what it drained. -/
inductive Worker
  | idle
  | lookup (key : FlowKey)
  | process (q : Nat)
  | finalize (i : Nat) (pc : FinalizePc) (rest : List Nat)

/-- `processAllQueuesConcurrently`, with `maxCleanupWorkers` workers. -/
structure Pool where
  pc : PoolPc := .unstarted
  tasks : List FlowKey := []
  workers : Fin 4 → Worker := fun _ => .idle

/-- The flow controller, its processor and their goroutines. `stopped`, `cancelled`:
`parentCtx`, the processor's context are done; `items` are in order of creation. -/
structure State (Tid : Type) where
  bufferSize : Nat
  calls : Tid → CallPc
  reqCtx : Tid → Option CtxDone
  stopped : Bool
  cancelled : Bool
  isShuttingDown : Bool
  enqueueChan : List Nat
  items : Nat → FlowItem Tid
  nextItem : Nat
  queues : Nat → List Nat
  run : RunPc
  pools : PoolId → Pool

/-- The choices of a call's step. -/
inductive CallAct
  /-- `EnqueueAndWait` is called -/
  | start (r : Request)
  /-- `WithConnection` calls back, or returns an error without -/
  | connected
  | refused (err : GoError)
  /-- the request's context is done -/
  | expire (d : CtxDone)
  /-- a step with no choice -/
  | next
  | candidates (c : Candidates)
  /-- the cases of the `select` statements: the send, `default` or the
  processor's context in `Submit`, the request's context, the processor's
  context in `SubmitOrBlock`, and the item's channel -/
  | send
  | busy
  | ctxDone
  | lifecycleDone
  | receive
  /-- `WithConnection` returns what the callback returned -/
  | leave

/-- The choices of a step of `Run`. -/
inductive RunAct
  | next
  /-- the cases of the main `select` -/
  | done
  | receive
  | tick
  /-- what `ManagedQueue`, `PriorityBandAccessor`, `hasCapacity` and
  `isDraining` answer -/
  | queue (answer : Except GoError Nat)
  | band (err : Option GoError)
  | capacity (room : Bool)
  | add (draining : Bool)
  /-- the saturation, and the priorities with their ceilings -/
  | levels (saturation : ℚ) (levels : List (Int × ℚ))
  /-- `selectItem` -/
  | pick (item : Option Nat)

/-- The choices of a step of a pool. -/
inductive PoolAct
  | tick
  | done
  | levels (priorities : List Int)
  /-- the flows `IterateQueues` visits in the next band -/
  | band (keys : List FlowKey)
  | take (w : Fin 4)
  | queue (w : Fin 4) (answer : Except GoError Nat)
  /-- `Cleanup` or `Drain`, with what `Cleanup` removes -/
  | process (w : Fin 4) (removed : List Nat)
  | finish

/-- A label. -/
inductive Act (Tid : Type)
  /-- `parentCtx` is cancelled, then the processor's context -/
  | stop
  | cancel
  | call (t : Tid) (a : CallAct)
  | run (a : RunAct)
  | pool (p : PoolId) (a : PoolAct)
  /-- the next step of a goroutine's finalization call -/
  | finalize (a : Agent Tid)

variable {Tid : Type} [DecidableEq Tid]

namespace State

def new (bufferSize : Nat) : State Tid where
  bufferSize := bufferSize
  calls := fun _ => .idle
  reqCtx := fun _ => none
  stopped := false
  cancelled := false
  isShuttingDown := false
  enqueueChan := []
  items := default
  nextItem := 0
  queues := fun _ => []
  run := .unstarted
  pools := fun _ => {}

def goto (s : State Tid) (t : Tid) (pc : CallPc) : State Tid :=
  { s with calls := update s.calls t pc }

def setItem (s : State Tid) (i : Nat) (item : FlowItem Tid) : State Tid :=
  { s with items := update s.items i item }

def setPool (s : State Tid) (p : PoolId) (pool : Pool) : State Tid :=
  { s with pools := update s.pools p pool }

omit [DecidableEq Tid] in
@[simp] theorem setPool_pools (s : State Tid) (p : PoolId) (pool : Pool) : (s.setPool p pool).pools p = pool :=
  update_self ..

def setWorker (s : State Tid) (p : PoolId) (w : Fin 4) (worker : Worker) : State Tid :=
  s.setPool p { s.pools p with workers := update (s.pools p).workers w worker }

omit [DecidableEq Tid] in
@[simp] theorem setWorker_pools (s : State Tid) (p : PoolId) (w : Fin 4) (worker : Worker) :
    (s.setWorker p w worker).pools p = { s.pools p with workers := update (s.pools p).workers w worker } :=
  update_self ..

def setQueue (s : State Tid) (q : Nat) (items : List Nat) : State Tid :=
  { s with queues := update s.queues q items }

def newItem (s : State Tid) (r : Request) : State Tid :=
  { s.setItem s.nextItem { key := r.key, byteSize := r.byteSize } with nextItem := s.nextItem + 1 }

/-- `getOrStartWorker`: the processor's goroutines start once. -/
def startWorker (s : State Tid) : State Tid :=
  match s.run with
  | .unstarted => { s.setPool .sweep { s.pools .sweep with pc := .waiting } with run := .select }
  | _ => s

end State

/-! ## Finalization calls -/

/-- The item a call finalizes, and where it stands in doing so. -/
def CallPc.finalizing : CallPc → Option (Nat × FinalizePc)
  | .failing i pc | .expiring i pc => some (i, pc)
  | _ => none

/-- A call's finalization goes on, or returns. -/
def CallPc.resume : CallPc → Option FinalizePc → CallPc
  | .failing i _, some pc => .failing i pc
  | .failing i _, none => .failed i
  | .expiring i _, some pc => .expiring i pc
  | .expiring i _, none => .expired i
  | pc, _ => pc

def RunPc.finalizing : RunPc → Option (Nat × FinalizePc)
  | .rejecting i pc | .dispatched i pc | .draining i pc => some (i, pc)
  | _ => none

def RunPc.resume : RunPc → Option FinalizePc → RunPc
  | .rejecting i _, some pc => .rejecting i pc
  | .rejecting _ _, none => .cycleBegin
  | .dispatched i _, some pc => .dispatched i pc
  | .dispatched _ _, none => .select
  | .draining i _, some pc => .draining i pc
  | .draining _ _, none => .drain
  | pc, _ => pc

/-- The loop of `evictAll` over the items drained. -/
def Worker.evict : List Nat → Worker
  | [] => .idle
  | i :: rest => .finalize i (.enter (.outcome shutdownEviction)) rest

def Worker.finalizing : Worker → Option (Nat × FinalizePc)
  | .finalize i pc _ => some (i, pc)
  | _ => none

def Worker.resume : Worker → Option FinalizePc → Worker
  | .finalize i _ rest, some pc => .finalize i pc rest
  | .finalize _ _ rest, none => .evict rest
  | w, _ => w

namespace State

def finalizing (s : State Tid) : Agent Tid → Option (Nat × FinalizePc)
  | .call t => (s.calls t).finalizing
  | .run => s.run.finalizing
  | .evictor w => ((s.pools .evict).workers w).finalizing

def resume (s : State Tid) (a : Agent Tid) (pc : Option FinalizePc) : State Tid :=
  match a with
  | .call t => s.goto t ((s.calls t).resume pc)
  | .run => { s with run := s.run.resume pc }
  | .evictor w => s.setWorker .evict w (((s.pools .evict).workers w).resume pc)

end State

/-! ## The steps of `EnqueueAndWait` -/

/-- How `tryDistribution` finalizes the item when `distributeRequest` fails. -/
def distributionFailed (err : GoError) (cause : Option GoError) : Finalization :=
  let err := notAccepted err
  let rejection := .outcome ⟨.rejectedOther, some (notAccepted err)⟩
  if err.is ctxCanceled || err.is ctxDeadlineExceeded then (cause.map .cause).getD rejection else rejection

/-- The end of `EnqueueAndWait`: an error without an outcome is a rejection. -/
def finish (fs : FinalState) : FinalState :=
  match fs.err with
  | some err => if fs.outcome = .notYetFinalized then ⟨.rejectedOther, some (rejectedErr err)⟩ else fs
  | none => fs

/-- The item is sent into the buffer or, where there is none, to the goroutine that
waits for one. The drain loop takes only from a sender that waits (`parked`). -/
def offer (s : State Tid) (i : Nat) (parked : Bool) : Option (State Tid) :=
  let s := s.setItem i { s.items i with accepted := true }
  if s.enqueueChan.length < s.bufferSize then some { s with enqueueChan := s.enqueueChan ++ [i] }
  else if s.bufferSize = 0 then
    match s.run with
    | .select => some { s with run := .loadState i }
    | .drain => if parked then some { s with run := .draining i (.enter (.outcome shutdownRejection)) } else none
    | _ => none
  else none

/-- A step of a call that makes no choice. -/
def callNext (s : State Tid) (t : Tid) : Option (State Tid) :=
  match s.calls t with
  | .lifecycle r =>
    some (s.goto t (if s.stopped then .leaving none shutdownRejection else .candidates r))
  | .submit i => some (s.goto t (if s.isShuttingDown then .block i else .submitSelect i))
  | .block i =>
    some (s.goto t (if s.isShuttingDown then
      .failing i (.enter (distributionFailed (.sentinel errFlowControllerNotRunning) none)) else .blockSelect i))
  | .failed i =>
    match (s.items i).finalState with
    | some fs => some (s.goto t (.leaving (some i) fs))
    | none => some (s.goto t .panicked)
  | .expired i =>
    match (s.items i).finalState with
    | some fs => some (s.goto t (.decide i fs))
    | none => some (s.goto t .panicked)
  | .decide i fs =>
    if fs.err.any (·.is errShardDraining) then
      some (s.goto t (.lifecycle { key := (s.items i).key, byteSize := (s.items i).byteSize }))
    else some (s.goto t (.leaving (some i) fs))
  | _ => none

def callStep (s : State Tid) (t : Tid) (a : CallAct) : Option (State Tid) :=
  match a, s.calls t with
  | .start r, .idle => some (s.goto t (.connecting r))
  | .connected, .connecting r => some (s.goto t (.lifecycle r))
  | .refused err, .connecting _ =>
    some (s.goto t (.returned none (finish ⟨.notYetFinalized, some err⟩)))
  | .expire d, _ =>
    if (s.reqCtx t).isSome then none else some { s with reqCtx := update s.reqCtx t (some d) }
  | .next, _ => callNext s t
  | .candidates c, .candidates r =>
    let i := s.nextItem
    let s := s.newItem r
    let s := if c = .noShards then s else s.startWorker
    some (s.goto t (if c = .found then .submit i else
      .failing i (.enter (.outcome ⟨.rejectedCapacity, some (notAccepted noShardsErr)⟩))))
  | .send, .submitSelect i => (offer s i false).map (·.goto t (.await i))
  | .send, .blockSelect i => (offer s i true).map (·.goto t (.await i))
  | .busy, .submitSelect i =>
    if s.cancelled ∨ ¬ s.enqueueChan.length < s.bufferSize then some (s.goto t (.block i)) else none
  | .ctxDone, .blockSelect i =>
    (s.reqCtx t).map fun d => s.goto t (.failing i (.enter (distributionFailed d.err (some d.cause))))
  | .lifecycleDone, .blockSelect i =>
    if s.cancelled then
      some (s.goto t (.failing i (.enter (distributionFailed (.sentinel errFlowControllerNotRunning) none))))
    else none
  | .ctxDone, .await i =>
    (s.reqCtx t).map fun d => s.goto t (.expiring i (.enter (.cause d.cause)))
  | .receive, .await i =>
    let item := s.items i
    match item.sent[item.received]? with
    | some fs => some ((s.setItem i { item with received := item.received + 1 }).goto t (.decide i fs))
    | none => if item.closed then some (s.goto t .panicked) else none
  | .leave, .leaving src fs => some (s.goto t (.returned src (finish fs)))
  | _, _ => none

/-! ## The steps of the processor -/

/-- A step of `Run` that makes no choice. -/
def runNext (s : State Tid) : Option (State Tid) :=
  match s.run with
  | .loadState i => some { s with run := if (s.items i).finalState.isSome then .cycleBegin else .lookup i }
  | .cycle _ [] => some { s with run := .select }
  | .cycle saturation ((_, ceiling) :: _) =>
    if saturation ≥ ceiling then some { s with run := .select } else none
  | .remove i q =>
    -- `Remove` fails when the item has been swept; the cycle counts as done either way
    if i ∈ s.queues q then
      some { (s.setQueue q ((s.queues q).erase i)).setItem i { s.items i with dispatched := true } with
        run := .dispatched i (.enter (.outcome ⟨.dispatched, none⟩)) }
    else some { s with run := .select }
  | .flag => some { s with isShuttingDown := true, run := .drain }
  | .drain =>
    match s.enqueueChan with
    | i :: rest => some { s with enqueueChan := rest, run := .draining i (.enter (.outcome shutdownRejection)) }
    | [] => some { s.setPool .evict { s.pools .evict with pc := .levels } with run := .evicting }
  | .evicting =>
    match (s.pools .evict).pc with
    | .stopped => some { s with run := .wait }
    | _ => none
  | .wait =>
    match (s.pools .sweep).pc with
    | .stopped => some { s with run := .returned }
    | _ => none
  | _ => none

/-- `selectItem` may answer with an item that some queue holds. -/
def Selectable (s : State Tid) (priority : Int) (i : Nat) : Prop :=
  (s.items i).key.priority = priority ∧ ∃ q ∈ (s.items i).handle, i ∈ s.queues q

instance (s : State Tid) (priority : Int) (i : Nat) : Decidable (Selectable s priority i) :=
  inferInstanceAs (Decidable (_ ∧ ∃ q ∈ (s.items i).handle, i ∈ s.queues q))

def runStep (s : State Tid) (a : RunAct) : Option (State Tid) :=
  match a, s.run with
  | .next, _ => runNext s
  | .done, .select => if s.cancelled then some { s with run := .flag } else none
  | .receive, .select =>
    match s.enqueueChan with
    | i :: rest => some { s with enqueueChan := rest, run := .loadState i }
    | [] => none
  | .tick, .select => some { s with run := .cycleBegin }
  | .queue (.ok q), .lookup i => some { s with run := .band i q }
  | .queue (.error err), .lookup i => some { s with run := .rejecting i (.enter (.outcome (queueRejection err))) }
  | .band none, .band i q => some { s with run := .capacity i q }
  | .band (some err), .band i _ => some { s with run := .rejecting i (.enter (.outcome (bandRejection err))) }
  | .capacity true, .capacity i q => some { s with run := .add i q }
  | .capacity false, .capacity i _ => some { s with run := .rejecting i (.enter (.outcome capacityRejection)) }
  | .add true, .add i _ =>
    some { s with run := .rejecting i (.enter (.outcome (addRejection (.sentinel errShardDraining)))) }
  | .add false, .add i q =>
    some { (s.setQueue q (s.queues q ++ [i])).setItem i { s.items i with handle := some q } with run := .cycleBegin }
  | .levels saturation levels, .cycleBegin => some { s with run := .cycle saturation levels }
  | .pick none, .cycle saturation ((_, ceiling) :: levels) =>
    if saturation ≥ ceiling then none else some { s with run := .cycle saturation levels }
  | .pick (some i), .cycle saturation ((priority, ceiling) :: levels) =>
    if saturation ≥ ceiling then none
    else if Selectable s priority i then some { s with run := .dispatch i saturation levels } else none
  | .queue (.ok q), .dispatch i _ _ => some { s with run := .remove i q }
  | .queue (.error _), .dispatch _ saturation levels => some { s with run := .cycle saturation levels }
  | _, _ => none

/-- What `Cleanup` may remove from a queue: items it found finalized. -/
def Sweepable (s : State Tid) (q : Nat) (removed : List Nat) : Prop :=
  ∀ i ∈ removed, i ∈ s.queues q ∧ (s.items i).finalState.isSome

instance (s : State Tid) (q : Nat) (removed : List Nat) : Decidable (Sweepable s q removed) :=
  inferInstanceAs (Decidable (∀ i ∈ removed, _))

def Worker.isIdle : Worker → Bool
  | .idle => true
  | _ => false

def poolStep (s : State Tid) (p : PoolId) (a : PoolAct) : Option (State Tid) :=
  let pool := s.pools p
  match a, pool.pc with
  | .tick, .waiting => some (s.setPool p { pool with pc := .levels })
  | .done, .waiting => if s.cancelled then some (s.setPool p { pool with pc := .stopped }) else none
  | .levels priorities, .levels => some (s.setPool p { pool with pc := .collect priorities })
  | .band keys, .collect (_ :: priorities) =>
    some (s.setPool p { pool with pc := .collect priorities, tasks := pool.tasks ++ keys })
  | .take w, .collect [] =>
    match pool.workers w, pool.tasks with
    | .idle, key :: tasks =>
      some (s.setPool p { pool with tasks, workers := update pool.workers w (.lookup key) })
    | _, _ => none
  | .queue w answer, _ =>
    match pool.workers w, answer with
    | .lookup _, .ok q => some (s.setWorker p w (.process q))
    | .lookup _, .error _ => some (s.setWorker p w .idle)
    | _, _ => none
  | .process w removed, _ =>
    match pool.workers w, p with
    | .process q, .sweep =>
      if Sweepable s q removed then
        some ((s.setQueue q ((s.queues q).filter (· ∉ removed))).setWorker p w .idle)
      else none
    | .process q, .evict => some ((s.setQueue q []).setWorker p w (.evict (s.queues q)))
    | _, _ => none
  | .finish, .collect [] =>
    if pool.tasks = [] ∧ ∀ w, (pool.workers w).isIdle then
      some (s.setPool p { pool with pc := if p = .sweep then .waiting else .stopped })
    else none
  | _, _ => none

/-- The system. -/
def step (s : State Tid) : Act Tid → Option (State Tid)
  | .stop => some { s with stopped := true }
  | .cancel => if s.stopped then some { s with cancelled := true } else none
  | .call t a => callStep s t a
  | .run a => runStep s a
  | .pool p a => poolStep s p a
  | .finalize a =>
    match s.finalizing a with
    | some (i, pc) =>
      (finalizeStep a (s.items i) pc).map fun r => (s.setItem i r.1).resume a r.2
    | none => none

/-! ## What a step can do -/

/-- The steps of a call that only move it on. -/
inductive CallGoto (s : State Tid) (t : Tid) : CallAct → CallPc → CallPc → Prop
  | start {r} : CallGoto s t (.start r) .idle (.connecting r)
  | connected {r} : CallGoto s t .connected (.connecting r) (.lifecycle r)
  | refused {r err} : CallGoto s t (.refused err) (.connecting r)
      (.returned none (finish ⟨.notYetFinalized, some err⟩))
  | stopped {r} : s.stopped = true → CallGoto s t .next (.lifecycle r) (.leaving none shutdownRejection)
  | distribute {r} : s.stopped = false → CallGoto s t .next (.lifecycle r) (.candidates r)
  | submitClosed {i} : s.isShuttingDown = true → CallGoto s t .next (.submit i) (.block i)
  | submitOpen {i} : s.isShuttingDown = false → CallGoto s t .next (.submit i) (.submitSelect i)
  | busy {i} : s.cancelled = true ∨ ¬ s.enqueueChan.length < s.bufferSize →
      CallGoto s t .busy (.submitSelect i) (.block i)
  | blockOpen {i} : s.isShuttingDown = false → CallGoto s t .next (.block i) (.blockSelect i)
  | notRunning {a i pc} : a = .next ∧ pc = .block i ∧ s.isShuttingDown = true ∨
      a = .lifecycleDone ∧ pc = .blockSelect i ∧ s.cancelled = true → CallGoto s t a pc
        (.failing i (.enter (distributionFailed (.sentinel errFlowControllerNotRunning) none)))
  | ctxFailed {i d} : s.reqCtx t = some d → CallGoto s t .ctxDone (.blockSelect i)
      (.failing i (.enter (distributionFailed d.err (some d.cause))))
  | failed {i fs} : (s.items i).finalState = some fs → CallGoto s t .next (.failed i) (.leaving (some i) fs)
  | expiring {i d} : s.reqCtx t = some d →
      CallGoto s t .ctxDone (.await i) (.expiring i (.enter (.cause d.cause)))
  | expired {i fs} : (s.items i).finalState = some fs → CallGoto s t .next (.expired i) (.decide i fs)
  | retry {i fs} : fs.err.any (·.is errShardDraining) = true → CallGoto s t .next (.decide i fs)
      (.lifecycle { key := (s.items i).key, byteSize := (s.items i).byteSize })
  | decided {i fs} : fs.err.any (·.is errShardDraining) = false →
      CallGoto s t .next (.decide i fs) (.leaving (some i) fs)
  | leave {src fs} : CallGoto s t .leave (.leaving src fs) (.returned src (finish fs))
  | panic {a i pc} : (pc = .failed i ∨ pc = .expired i) ∧ (s.items i).finalState = none ∨
      pc = .await i ∧ (s.items i).sent.length ≤ (s.items i).received ∧ (s.items i).closed = true →
      CallGoto s t a pc .panicked

/-- The steps of a call. -/
inductive CallMoves (s : State Tid) (t : Tid) : CallAct → State Tid → Prop
  | goto {a pc pc'} : s.calls t = pc → CallGoto s t a pc pc' → CallMoves s t a (s.goto t pc')
  | expire {d} : s.reqCtx t = none →
      CallMoves s t (.expire d) { s with reqCtx := update s.reqCtx t (some d) }
  | candidates {c r} : s.calls t = .candidates r → CallMoves s t (.candidates c)
      ((if c = .noShards then s.newItem r else (s.newItem r).startWorker).goto t
        (if c = .found then .submit s.nextItem else
          .failing s.nextItem (.enter (.outcome ⟨.rejectedCapacity, some (notAccepted noShardsErr)⟩))))
  | sendBuffer {i pc} : s.calls t = pc → pc = .submitSelect i ∨ pc = .blockSelect i →
      s.enqueueChan.length < s.bufferSize → CallMoves s t .send
        ({ s.setItem i { s.items i with accepted := true } with enqueueChan := s.enqueueChan ++ [i] }.goto t
          (.await i))
  | sendRun {i pc} : s.calls t = pc → pc = .submitSelect i ∨ pc = .blockSelect i → s.run = .select →
      CallMoves s t .send
        ({ s.setItem i { s.items i with accepted := true } with run := .loadState i }.goto t (.await i))
  | sendDrain {i} : s.calls t = .blockSelect i → s.run = .drain → CallMoves s t .send
      ({ s.setItem i { s.items i with accepted := true } with
        run := .draining i (.enter (.outcome shutdownRejection)) }.goto t (.await i))
  | receive {i fs} : s.calls t = .await i → (s.items i).sent[(s.items i).received]? = some fs →
      CallMoves s t .receive
        ((s.setItem i { s.items i with received := (s.items i).received + 1 }).goto t (.decide i fs))

/-- The steps of `Run` that only move it on. -/
inductive RunGoto (s : State Tid) : RunAct → RunPc → RunPc → Prop
  | done : s.cancelled = true → RunGoto s .done .select .flag
  | tick : RunGoto s .tick .select .cycleBegin
  | discard {i} : (s.items i).finalState.isSome = true → RunGoto s .next (.loadState i) .cycleBegin
  | proceed {i} : (s.items i).finalState.isSome = false → RunGoto s .next (.loadState i) (.lookup i)
  | queue {i q} : RunGoto s (.queue (.ok q)) (.lookup i) (.band i q)
  | noQueue {i err} : RunGoto s (.queue (.error err)) (.lookup i)
      (.rejecting i (.enter (.outcome (queueRejection err))))
  | band {i q} : RunGoto s (.band none) (.band i q) (.capacity i q)
  | noBand {i q err} : RunGoto s (.band (some err)) (.band i q)
      (.rejecting i (.enter (.outcome (bandRejection err))))
  | room {i q} : RunGoto s (.capacity true) (.capacity i q) (.add i q)
  | full {i q} : RunGoto s (.capacity false) (.capacity i q)
      (.rejecting i (.enter (.outcome capacityRejection)))
  | draining {i q} : RunGoto s (.add true) (.add i q)
      (.rejecting i (.enter (.outcome (addRejection (.sentinel errShardDraining)))))
  | levels {saturation levels} : RunGoto s (.levels saturation levels) .cycleBegin (.cycle saturation levels)
  | cycleEnd {saturation levels} : (∀ l ∈ levels.head?, saturation ≥ l.2) →
      RunGoto s .next (.cycle saturation levels) .select
  | skip {saturation l levels} : ¬ saturation ≥ l.2 →
      RunGoto s (.pick none) (.cycle saturation (l :: levels)) (.cycle saturation levels)
  | pick {saturation l levels i} : ¬ saturation ≥ l.2 → Selectable s l.1 i →
      RunGoto s (.pick (some i)) (.cycle saturation (l :: levels)) (.dispatch i saturation levels)
  | dispatch {i q saturation levels} : RunGoto s (.queue (.ok q)) (.dispatch i saturation levels) (.remove i q)
  | dispatchFailed {i err saturation levels} : RunGoto s (.queue (.error err)) (.dispatch i saturation levels)
      (.cycle saturation levels)
  | removeFailed {i q} : i ∉ s.queues q → RunGoto s .next (.remove i q) .select
  | evicted : (s.pools .evict).pc = .stopped → RunGoto s .next .evicting .wait
  | returned : (s.pools .sweep).pc = .stopped → RunGoto s .next .wait .returned

/-- The steps of `Run`. -/
inductive RunMoves (s : State Tid) : RunAct → State Tid → Prop
  | goto {a pc pc'} : s.run = pc → RunGoto s a pc pc' → RunMoves s a { s with run := pc' }
  | receive {i rest} : s.run = .select → s.enqueueChan = i :: rest →
      RunMoves s .receive { s with enqueueChan := rest, run := .loadState i }
  | add {i q} : s.run = .add i q → RunMoves s (.add false)
      { (s.setQueue q (s.queues q ++ [i])).setItem i { s.items i with handle := some q } with run := .cycleBegin }
  | remove {i q} : s.run = .remove i q → i ∈ s.queues q → RunMoves s .next
      { (s.setQueue q ((s.queues q).erase i)).setItem i { s.items i with dispatched := true } with
        run := .dispatched i (.enter (.outcome ⟨.dispatched, none⟩)) }
  | flag : s.run = .flag → RunMoves s .next { s with isShuttingDown := true, run := .drain }
  | drain {i rest} : s.run = .drain → s.enqueueChan = i :: rest → RunMoves s .next
      { s with enqueueChan := rest, run := .draining i (.enter (.outcome shutdownRejection)) }
  | drained : s.run = .drain → s.enqueueChan = [] →
      RunMoves s .next { s.setPool .evict { s.pools .evict with pc := .levels } with run := .evicting }

/-- The steps of a pool, other than its finalization calls. -/
inductive PoolMoves (s : State Tid) (p : PoolId) : PoolAct → State Tid → Prop
  | goto {a pc pc'} : (s.pools p).pc = pc → a = .tick ∧ pc = .waiting ∧ pc' = .levels ∨
      a = .done ∧ pc = .waiting ∧ s.cancelled = true ∧ pc' = .stopped ∨
      (∃ ps, a = .levels ps ∧ pc = .levels ∧ pc' = .collect ps) ∨
      a = .finish ∧ pc = .collect [] ∧ (s.pools p).tasks = [] ∧ (∀ w, ((s.pools p).workers w).isIdle = true) ∧
        pc' = (if p = .sweep then .waiting else .stopped) →
      PoolMoves s p a (s.setPool p { s.pools p with pc := pc' })
  | band {priority priorities keys} : (s.pools p).pc = .collect (priority :: priorities) →
      PoolMoves s p (.band keys)
        (s.setPool p { s.pools p with pc := .collect priorities, tasks := (s.pools p).tasks ++ keys })
  | take {w key tasks} : (s.pools p).pc = .collect [] → (s.pools p).workers w = .idle →
      (s.pools p).tasks = key :: tasks → PoolMoves s p (.take w)
        (s.setPool p { s.pools p with tasks, workers := update (s.pools p).workers w (.lookup key) })
  | queue {w key q} : (s.pools p).workers w = .lookup key →
      PoolMoves s p (.queue w (.ok q)) (s.setWorker p w (.process q))
  | noQueue {w key err} : (s.pools p).workers w = .lookup key →
      PoolMoves s p (.queue w (.error err)) (s.setWorker p w .idle)
  | cleanup {w q removed} : p = .sweep → (s.pools p).workers w = .process q → Sweepable s q removed →
      PoolMoves s p (.process w removed)
        ((s.setQueue q ((s.queues q).filter (· ∉ removed))).setWorker p w .idle)
  | drain {w q removed} : p = .evict → (s.pools p).workers w = .process q →
      PoolMoves s p (.process w removed) ((s.setQueue q []).setWorker p w (.evict (s.queues q)))

/-- What a step can do. -/
inductive Moves (s : State Tid) : Act Tid → State Tid → Prop
  | stop : Moves s .stop { s with stopped := true }
  | cancel : s.stopped = true → Moves s .cancel { s with cancelled := true }
  | call {t a s'} : CallMoves s t a s' → Moves s (.call t a) s'
  | run {a s'} : RunMoves s a s' → Moves s (.run a) s'
  | pool {p a s'} : PoolMoves s p a s' → Moves s (.pool p a) s'
  | finalize {a i pc item next} : s.finalizing a = some (i, pc) →
      finalizeStep a (s.items i) pc = some (item, next) →
      Moves s (.finalize a) ((s.setItem i item).resume a next)

variable {s s' : State Tid}

theorem callNext_moves {t : Tid} (h : callNext s t = some s') : CallMoves s t .next s' := by
  unfold callNext at h
  split at h
  case h_1 r hpc =>
    cases h
    split
    · exact .goto hpc (.stopped ‹_›)
    · exact .goto hpc (.distribute (by simp_all))
  case h_2 i hpc =>
    cases h
    split
    · exact .goto hpc (.submitClosed ‹_›)
    · exact .goto hpc (.submitOpen (by simp_all))
  case h_3 i hpc =>
    cases h
    split
    · exact .goto hpc (.notRunning (.inl ⟨rfl, rfl, ‹_›⟩))
    · exact .goto hpc (.blockOpen (by simp_all))
  case h_4 i hpc =>
    split at h
    · cases h
      exact .goto hpc (.failed ‹_›)
    · cases h
      exact .goto hpc (.panic (.inl ⟨.inl rfl, ‹_›⟩))
  case h_5 i hpc =>
    split at h
    · cases h
      exact .goto hpc (.expired ‹_›)
    · cases h
      exact .goto hpc (.panic (.inl ⟨.inr rfl, ‹_›⟩))
  case h_6 i fs hpc =>
    split at h
    · cases h
      exact .goto hpc (.retry ‹_›)
    · cases h
      exact .goto hpc (.decided (by simp_all))
  case h_7 => cases h

theorem offer_moves {t : Tid} {i : Nat} {parked : Bool}
    (hpc : s.calls t = .submitSelect i ∧ parked = false ∨ s.calls t = .blockSelect i)
    (hs : (offer s i parked).map (·.goto t (.await i)) = some s') : CallMoves s t .send s' := by
  obtain ⟨s₁, h, rfl⟩ := Option.map_eq_some_iff.mp hs
  have hsel : s.calls t = .submitSelect i ∨ s.calls t = .blockSelect i := hpc.imp_left (·.1)
  simp only [offer] at h
  split at h
  · cases h
    exact .sendBuffer rfl hsel ‹_›
  · split at h
    · split at h
      · cases h
        exact .sendRun rfl hsel ‹_›
      · split at h
        · cases h
          rcases hpc with ⟨_, hp⟩ | hpc
          · simp_all
          · exact .sendDrain hpc ‹_›
        · cases h
      · cases h
    · cases h

theorem callStep_moves {t : Tid} {a : CallAct} (h : callStep s t a = some s') : CallMoves s t a s' := by
  unfold callStep at h
  split at h
  case h_1 r hpc =>
    cases h
    exact .goto hpc .start
  case h_2 r hpc =>
    cases h
    exact .goto hpc .connected
  case h_3 err r hpc =>
    cases h
    exact .goto hpc .refused
  case h_4 d =>
    split at h
    · cases h
    · cases h
      exact .expire (by simp_all)
  case h_5 => exact callNext_moves h
  case h_6 c r hpc =>
    cases h
    exact .candidates hpc
  case h_7 i hpc => exact offer_moves (.inl ⟨hpc, rfl⟩) h
  case h_8 i hpc => exact offer_moves (.inr hpc) h
  case h_9 i hpc =>
    split at h
    · cases h
      exact .goto hpc (.busy ‹_›)
    · cases h
  case h_10 i hpc =>
    obtain ⟨d, hd, rfl⟩ := Option.map_eq_some_iff.mp h
    exact .goto hpc (.ctxFailed hd)
  case h_11 i hpc =>
    split at h
    · cases h
      exact .goto hpc (.notRunning (.inr ⟨rfl, rfl, ‹_›⟩))
    · cases h
  case h_12 i hpc =>
    obtain ⟨d, hd, rfl⟩ := Option.map_eq_some_iff.mp h
    exact .goto hpc (.expiring hd)
  case h_13 i hpc =>
    simp only at h
    split at h
    · cases h
      exact .receive hpc ‹_›
    · rename_i hsent
      split at h
      · cases h
        exact .goto hpc (.panic (.inr ⟨rfl, List.getElem?_eq_none_iff.mp hsent, ‹_›⟩))
      · cases h
  case h_14 src fs hpc =>
    cases h
    exact .goto hpc .leave
  case h_15 => cases h

omit [DecidableEq Tid] in
theorem runNext_moves (h : runNext s = some s') : RunMoves s .next s' := by
  unfold runNext at h
  split at h
  case h_1 i hpc =>
    cases h
    split
    · exact .goto hpc (.discard ‹_›)
    · exact .goto hpc (.proceed (by simp_all))
  case h_2 hpc =>
    cases h
    exact .goto hpc (.cycleEnd (by simp))
  case h_3 hpc =>
    split at h
    · cases h
      exact .goto hpc (.cycleEnd (by simpa using ‹_›))
    · cases h
  case h_4 i q hpc =>
    split at h
    · cases h
      exact .remove hpc ‹_›
    · cases h
      exact .goto hpc (.removeFailed ‹_›)
  case h_5 hpc =>
    cases h
    exact .flag hpc
  case h_6 hpc =>
    split at h
    · cases h
      exact .drain hpc ‹_›
    · cases h
      exact .drained hpc ‹_›
  case h_7 hpc =>
    split at h
    · cases h
      exact .goto hpc (.evicted ‹_›)
    · cases h
  case h_8 hpc =>
    split at h
    · cases h
      exact .goto hpc (.returned ‹_›)
    · cases h
  case h_9 => cases h

omit [DecidableEq Tid] in
theorem runStep_moves {a : RunAct} (h : runStep s a = some s') : RunMoves s a s' := by
  unfold runStep at h
  split at h
  case h_1 => exact runNext_moves h
  case h_2 hpc =>
    split at h
    · cases h
      exact .goto hpc (.done ‹_›)
    · cases h
  case h_3 hpc =>
    split at h
    · cases h
      exact .receive hpc ‹_›
    · cases h
  case h_14 sat p c ls hpc =>
    split at h
    · cases h
    · cases h
      exact .goto hpc (.skip ‹_›)
  case h_15 i sat p c ls hpc =>
    split at h
    · cases h
    · split at h
      · cases h
        exact .goto hpc (.pick ‹_› ‹_›)
      · cases h
  case h_18 => cases h
  all_goals
    rename_i hpc
    cases h
  · exact .goto hpc .tick
  · exact .goto hpc .queue
  · exact .goto hpc .noQueue
  · exact .goto hpc .band
  · exact .goto hpc .noBand
  · exact .goto hpc .room
  · exact .goto hpc .full
  · exact .goto hpc .draining
  · exact .add hpc
  · exact .goto hpc .levels
  · exact .goto hpc .dispatch
  · exact .goto hpc .dispatchFailed

omit [DecidableEq Tid] in
theorem poolStep_moves {p : PoolId} {a : PoolAct} (h : poolStep s p a = some s') : PoolMoves s p a s' := by
  simp only [poolStep] at h
  split at h
  case h_1 hpc =>
    cases h
    exact .goto hpc (.inl ⟨rfl, rfl, rfl⟩)
  case h_2 hpc =>
    split at h
    · cases h
      exact .goto hpc (.inr (.inl ⟨rfl, rfl, ‹_›, rfl⟩))
    · cases h
  case h_3 ps hpc =>
    cases h
    exact .goto hpc (.inr (.inr (.inl ⟨ps, rfl, rfl, rfl⟩)))
  case h_4 hpc =>
    cases h
    exact .band hpc
  case h_5 hpc =>
    split at h
    · cases h
      exact .take hpc ‹_› ‹_›
    · cases h
  case h_6 =>
    split at h
    · cases h
      exact .queue ‹_›
    · cases h
      exact .noQueue ‹_›
    · cases h
  case h_7 =>
    split at h
    · split at h
      · cases h
        exact .cleanup rfl ‹_› ‹_›
      · cases h
    · cases h
      exact .drain rfl ‹_›
    · cases h
  case h_8 hpc =>
    split at h
    · rename_i hidle
      cases h
      exact .goto hpc (.inr (.inr (.inr ⟨rfl, rfl, hidle.1, hidle.2, rfl⟩)))
    · cases h
  case h_9 => cases h

theorem step_moves {a : Act Tid} (h : step s a = some s') : Moves s a s' := by
  unfold step at h
  split at h
  case h_1 =>
    cases h
    exact .stop
  case h_2 =>
    split at h
    · cases h
      exact .cancel ‹_›
    · cases h
  case h_3 => exact .call (callStep_moves h)
  case h_4 => exact .run (runStep_moves h)
  case h_5 => exact .pool (poolStep_moves h)
  case h_6 =>
    split at h
    · obtain ⟨r, hr, rfl⟩ := Option.map_eq_some_iff.mp h
      exact .finalize ‹_› hr
    · cases h

end InferenceScheduler.Controller
