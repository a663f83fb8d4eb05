/-
`registry/registry.go`: the flow registry as a system of goroutines. Any number
of `WithConnection` calls and one garbage collector take turns, one atomic step
at a time: a `sync.Map` operation, a critical section of a lease mutex, a
section under the registry lock, or the entry to a `sync.Once`.

A label (`Act`) says who moves and what the environment answers. `Moves` is what
a step can do, one constructor a transition.
-/
import InferenceScheduler.Registry.Leasing
import InferenceScheduler.Registry.Topology
import InferenceScheduler.Lib.Run

namespace InferenceScheduler.Registry

open Function (comp_apply update)

/-- A call's locals once it has pinned its flow; `unpin` reads the clock early. -/
structure Conn where
  key : FlowKey
  state : Nat
  isNew : Bool
  since : Time := 0
  deriving DecidableEq, Repr

/-- Where a goroutine stands in `WithConnection`. -/
inductive CallPc
  | idle
  /-- 1. `pinLeasedResource(&fr.flowStates, ...)` -/
  | pinFlow (key : FlowKey) (pc : PinPc)
  /-- `pinLeasedResource(&fr.priorityBandStates, ...)`, for a new flow -/
  | pinBand (c : Conn) (pc : PinPc)
  /-- `defer state.unpin(fr.clock.Now())` -/
  | arm (c : Conn)
  /-- 2. `state.initialized.Do(...)` -/
  | enter (c : Conn)
  /-- `ensureFlowInfrastructure`: the first read-locked section -/
  | lookupBand (c : Conn)
  /-- `ensurePriorityBand` -/
  | ensureBand (c : Conn)
  /-- `ensureFlowInfrastructure`: the second read-locked section -/
  | syncFlow (c : Conn)
  /-- `if state.initErr != nil` -/
  | check (c : Conn)
  /-- `fr.flowStates.Delete(key)` -/
  | drop (c : Conn) (err : GoError)
  /-- `fr.priorityBandStates.Load(key.Priority)` -/
  | loadBand (c : Conn) (err : GoError)
  | unpinBand (c : Conn) (err : GoError) (b : Nat)
  /-- 3. `fn(&connection{...})` is running -/
  | callback (c : Conn)
  /-- the deferred `state.unpin` -/
  | release (c : Conn) (result : Option GoError)
  | returned (result : Option GoError)

/-- Where the collector stands in `executeGCCycle`. -/
inductive GcPc
  | idle
  | flows (pc : CollectPc FlowKey)
  /-- `gcFlows`'s loop over the collected flows (`todo`); with none left,
  the section of `cleanupFlowResources` -/
  | releaseFlows (todo : List Nat) (keys : List FlowKey)
  | unpinBand (b v : Nat) (todo : List Nat) (keys : List FlowKey)
  | bandsBegin
  | bands (pc : CollectPc Int)
  | cleanBands (priorities : List Int)

/-- A flow state's `initialized` and `initErr`. -/
inductive Init
  | fresh
  | running
  | done (err : Option GoError)

/-- `FlowRegistry` with its goroutines. -/
structure State (Tid : Type) where
  flows : Leases FlowKey
  bands : Leases Int
  init : Nat → Init
  topo : Topology
  calls : Tid → CallPc
  gc : GcPc
  crashed : Bool

/-- A label: who moves, and what it is answered. -/
inductive Act (Tid : Type)
  /-- a `WithConnection` call begins -/
  | start (t : Tid) (key : FlowKey)
  /-- a call takes its next step -/
  | call (t : Tid) (now : Time) (made : Bool)
  /-- a call's callback returns -/
  | finish (t : Tid) (result : Option GoError)
  /-- `executeGCCycle` begins -/
  | gcBegin (now : Time)
  /-- `Range` hands the collector a flow key or a priority -/
  | gcVisitFlow (key : FlowKey)
  | gcVisitBand (priority : Int)
  | gcEndRange
  | gcStep (now : Time)
  /-- a managed queue reports a change of its length and byte size -/
  | stats (priority lenDelta byteSizeDelta : Int)

variable {Tid : Type} [DecidableEq Tid]

namespace State

/-- `NewFlowRegistry`, with no call under way. -/
def new (c : InitialConfig) : State Tid where
  flows := .empty
  bands := .empty
  init := fun _ => .fresh
  topo := Topology.new c
  calls := fun _ => .idle
  gc := .idle
  crashed := false

/-- A goroutine goes on to another point. -/
@[simps -fullyApplied]
def goto (s : State Tid) (t : Tid) (pc : CallPc) : State Tid :=
  { s with calls := update s.calls t pc }

end State

/-- The error `WithConnection` returns when provisioning failed. -/
def provisionErr (e : GoError) : GoError := .errorf "failed to provision JIT flow resources: %w" [e]

/-- The next step of a call. One whose callback is running, or that waits for
another's `sync.Once` body, has none. -/
def callStep (s : State Tid) (t : Tid) (now : Time) (made : Bool) : Option (State Tid) :=
  match s.calls t with
  | .idle | .callback _ | .returned _ => none
  | .pinFlow key pc =>
    let r := pinStep s.flows key now pc
    let s := { s with flows := r.1 }
    match r.2 with
    | .goOn pc => some (s.goto t (.pinFlow key pc))
    | .pinned v true => some (s.goto t (.pinBand { key, state := v, isNew := true } .load))
    | .pinned v false => some (s.goto t (.arm { key, state := v, isNew := false }))
  | .pinBand c pc =>
    let r := pinStep s.bands c.key.priority now pc
    let s := { s with bands := r.1 }
    match r.2 with
    | .goOn pc => some (s.goto t (.pinBand c pc))
    | .pinned _ _ => some (s.goto t (.arm c))
  | .arm c => some (s.goto t (.enter { c with since := now }))
  | .enter c =>
    match s.init c.state with
    | .fresh => some ({ s with init := update s.init c.state .running }.goto t (.lookupBand c))
    | .running => none
    | .done _ => some (s.goto t (.check c))
  | .lookupBand c =>
    if (s.topo.config.priorityBands c.key.priority).isSome then some (s.goto t (.syncFlow c))
    else some (s.goto t (.ensureBand c))
  | .ensureBand c =>
    if (s.topo.config.priorityBands c.key.priority).isSome then some (s.goto t (.syncFlow c))
    else
      match s.topo.ensurePriorityBand c.key.priority with
      | none => some { s with crashed := true }
      | some topo =>
        let bands := if (s.bands.table c.key.priority).isSome then s.bands else s.bands.create c.key.priority
        some ({ s with topo, bands }.goto t (.syncFlow c))
  | .syncFlow c =>
    match s.topo.buildFlowComponents c.key made with
    | .error e => some ({ s with init := update s.init c.state (.done (some e)) }.goto t (.check c))
    | .ok _ =>
      match s.topo.synchronizeFlow c.key with
      | none => some { s with crashed := true }
      | some topo =>
        some ({ s with topo, init := update s.init c.state (.done none) }.goto t (.check c))
  | .check c =>
    match s.init c.state with
    | .done none => some (s.goto t (.callback c))
    | .done (some e) => some (s.goto t (.drop c e))
    | _ => none
  | .drop c e =>
    let s := { s with flows := s.flows.erase c.key }
    if c.isNew then some (s.goto t (.loadBand c e))
    else some (s.goto t (.release c (some (provisionErr e))))
  | .loadBand c e =>
    match s.bands.table c.key.priority with
    | some b => some (s.goto t (.unpinBand c e b))
    | none => some (s.goto t (.release c (some (provisionErr e))))
  | .unpinBand c e b =>
    some ({ s with bands := s.bands.setObj b ((s.bands.obj b).unpin now) }.goto t
      (.release c (some (provisionErr e))))
  | .release c result =>
    some ({ s with flows := s.flows.setObj c.state ((s.flows.obj c.state).unpin c.since) }.goto t
      (.returned result))

/-- The collector's next step outside `Range`'s own choices. -/
def gcStep (s : State Tid) (now : Time) : Option (State Tid) :=
  match s.gc with
  | .idle => none
  | .flows pc =>
    (collectStep s.flows s.topo.config.flowGCTimeout pc).map fun r => { s with flows := r.1, gc := .flows r.2 }
  | .releaseFlows (v :: todo) keys =>
    match s.bands.table (s.flows.key v).priority with
    | some b => some { s with gc := .unpinBand b v todo keys }
    | none => some { s with gc := .releaseFlows todo (keys ++ [s.flows.key v]) }
  | .unpinBand b v todo keys =>
    some { s with
      bands := s.bands.setObj b ((s.bands.obj b).unpin now)
      gc := .releaseFlows todo (keys ++ [s.flows.key v]) }
  | .releaseFlows [] keys =>
    some { s with
      topo := s.topo.cleanupFlowResources (fun k => (s.flows.table k).isSome) keys
      gc := .bandsBegin }
  | .bandsBegin => some { s with gc := .bands (.range { now }) }
  | .bands pc =>
    (collectStep s.bands s.topo.config.priorityBandGCTimeout pc).map fun r => { s with bands := r.1, gc := .bands r.2 }
  | .cleanBands ps =>
    some { s with
      topo := s.topo.cleanupPriorityBandResources (fun p => (s.bands.table p).isSome) ps
      gc := .idle }

/-- The end of a `Range`: on to what was collected, if anything was. -/
def gcEndRange (s : State Tid) : Option (State Tid) :=
  match s.gc with
  | .flows (.range sc) =>
    some { s with gc := if sc.found = [] then .bandsBegin else .releaseFlows sc.found [] }
  | .bands (.range sc) =>
    some { s with gc := if sc.found = [] then .idle else .cleanBands (sc.found.map s.bands.key) }
  | _ => none

/-- The system. -/
def step (s : State Tid) : Act Tid → Option (State Tid)
  | .start t key =>
    if s.crashed then none else
    match s.calls t with
    | .idle | .returned _ =>
      if key.id = "" then some (s.goto t (.returned (some (.sentinel errFlowIDEmpty))))
      else some (s.goto t (.pinFlow key .load))
    | _ => none
  | .call t now made => if s.crashed then none else callStep s t now made
  | .finish t result =>
    if s.crashed then none else
    match s.calls t with
    | .callback c => some (s.goto t (.release c result))
    | _ => none
  | .gcBegin now =>
    if s.crashed then none else
    match s.gc with
    | .idle => some { s with gc := .flows (.range { now }) }
    | _ => none
  | .gcVisitFlow k =>
    if s.crashed then none else
    match s.gc with
    | .flows pc => (collectVisit s.flows k pc).map fun pc => { s with gc := .flows pc }
    | _ => none
  | .gcVisitBand p =>
    if s.crashed then none else
    match s.gc with
    | .bands pc => (collectVisit s.bands p pc).map fun pc => { s with gc := .bands pc }
    | _ => none
  | .gcEndRange => if s.crashed then none else gcEndRange s
  | .gcStep now => if s.crashed then none else gcStep s now
  | .stats priority lenDelta byteSizeDelta =>
    if s.crashed then none else
    (s.topo.propagateStatsDelta priority lenDelta byteSizeDelta).map fun topo => { s with topo }

/-! ## What a step can do -/

/-- The transitions of a `WithConnection` call. -/
inductive CallMoves (s : State Tid) (t : Tid) (now : Time) (made : Bool) : State Tid → Prop
  | flowFound {key pc v} : s.calls t = .pinFlow key pc → pc = .load ∨ pc = .loadOrStore →
      s.flows.table key = some v → CallMoves s t now made (s.goto t (.pinFlow key (.tryPin v false)))
  | flowMissing {key} : s.calls t = .pinFlow key .load → s.flows.table key = none →
      CallMoves s t now made (s.goto t (.pinFlow key .loadOrStore))
  | flowCreate {key} : s.calls t = .pinFlow key .loadOrStore → s.flows.table key = none →
      CallMoves s t now made
        ({ s with flows := s.flows.create key }.goto t (.pinFlow key (.tryPin s.flows.next true)))
  | flowPin {key v isNew} : s.calls t = .pinFlow key (.tryPin v isNew) →
      (s.flows.obj v).markedForDeletion = false → CallMoves s t now made
        ({ s with flows := s.flows.setObj v (s.flows.obj v).pinned }.goto t
          (.pinFlow key (.recheck v isNew)))
  | flowRefused {key v isNew} : s.calls t = .pinFlow key (.tryPin v isNew) →
      (s.flows.obj v).markedForDeletion = true → CallMoves s t now made (s.goto t (.pinFlow key .load))
  | flowNew {key v} : s.calls t = .pinFlow key (.recheck v true) → s.flows.table key = some v →
      CallMoves s t now made (s.goto t (.pinBand { key, state := v, isNew := true } .load))
  | flowOld {key v} : s.calls t = .pinFlow key (.recheck v false) → s.flows.table key = some v →
      CallMoves s t now made (s.goto t (.arm { key, state := v, isNew := false }))
  | flowStale {key v isNew} : s.calls t = .pinFlow key (.recheck v isNew) → s.flows.table key ≠ some v →
      CallMoves s t now made (s.goto t (.pinFlow key (.backOff v)))
  | flowBackOff {key v} : s.calls t = .pinFlow key (.backOff v) → CallMoves s t now made
      ({ s with flows := s.flows.setObj v ((s.flows.obj v).unpin now) }.goto t (.pinFlow key .load))
  | bandFound {c pc b} : s.calls t = .pinBand c pc → pc = .load ∨ pc = .loadOrStore →
      s.bands.table c.key.priority = some b → CallMoves s t now made (s.goto t (.pinBand c (.tryPin b false)))
  | bandMissing {c} : s.calls t = .pinBand c .load → s.bands.table c.key.priority = none →
      CallMoves s t now made (s.goto t (.pinBand c .loadOrStore))
  | bandCreate {c} : s.calls t = .pinBand c .loadOrStore → s.bands.table c.key.priority = none →
      CallMoves s t now made
        ({ s with bands := s.bands.create c.key.priority }.goto t (.pinBand c (.tryPin s.bands.next true)))
  | bandPin {c b isNew} : s.calls t = .pinBand c (.tryPin b isNew) →
      (s.bands.obj b).markedForDeletion = false → CallMoves s t now made
        ({ s with bands := s.bands.setObj b (s.bands.obj b).pinned }.goto t
          (.pinBand c (.recheck b isNew)))
  | bandRefused {c b isNew} : s.calls t = .pinBand c (.tryPin b isNew) →
      (s.bands.obj b).markedForDeletion = true → CallMoves s t now made (s.goto t (.pinBand c .load))
  | bandKept {c b isNew} : s.calls t = .pinBand c (.recheck b isNew) → s.bands.table c.key.priority = some b →
      CallMoves s t now made (s.goto t (.arm c))
  | bandStale {c b isNew} : s.calls t = .pinBand c (.recheck b isNew) → s.bands.table c.key.priority ≠ some b →
      CallMoves s t now made (s.goto t (.pinBand c (.backOff b)))
  | bandBackOff {c b} : s.calls t = .pinBand c (.backOff b) → CallMoves s t now made
      ({ s with bands := s.bands.setObj b ((s.bands.obj b).unpin now) }.goto t (.pinBand c .load))
  | arm {c} : s.calls t = .arm c → CallMoves s t now made (s.goto t (.enter { c with since := now }))
  | enterFirst {c} : s.calls t = .enter c → s.init c.state = .fresh → CallMoves s t now made
      ({ s with init := update s.init c.state .running }.goto t (.lookupBand c))
  | enterDone {c e} : s.calls t = .enter c → s.init c.state = .done e →
      CallMoves s t now made (s.goto t (.check c))
  | bandThere {c pc} : s.calls t = pc → pc = .lookupBand c ∨ pc = .ensureBand c →
      (s.topo.config.priorityBands c.key.priority).isSome → CallMoves s t now made (s.goto t (.syncFlow c))
  | bandAbsent {c} : s.calls t = .lookupBand c → s.topo.config.priorityBands c.key.priority = none →
      CallMoves s t now made (s.goto t (.ensureBand c))
  | ensureBand {c topo bands} : s.calls t = .ensureBand c →
      s.topo.config.priorityBands c.key.priority = none →
      s.topo.ensurePriorityBand c.key.priority = some topo →
      bands = (if (s.bands.table c.key.priority).isSome then s.bands else s.bands.create c.key.priority) →
      CallMoves s t now made ({ s with topo, bands }.goto t (.syncFlow c))
  | syncFail {c e} : s.calls t = .syncFlow c → s.topo.buildFlowComponents c.key made = .error e →
      CallMoves s t now made
        ({ s with init := update s.init c.state (.done (some e)) }.goto t (.check c))
  | syncOk {c band topo} : s.calls t = .syncFlow c → s.topo.buildFlowComponents c.key made = .ok band →
      s.topo.synchronizeFlow c.key = some topo → CallMoves s t now made
        ({ s with topo, init := update s.init c.state (.done none) }.goto t (.check c))
  | crash {c pc} : s.calls t = pc → pc = .ensureBand c ∧ s.topo.ensurePriorityBand c.key.priority = none ∨
      pc = .syncFlow c ∧ s.topo.synchronizeFlow c.key = none ∧
        (s.topo.config.priorityBands c.key.priority).isSome →
      CallMoves s t now made { s with crashed := true }
  | checkOk {c} : s.calls t = .check c → s.init c.state = .done none →
      CallMoves s t now made (s.goto t (.callback c))
  | checkFail {c e} : s.calls t = .check c → s.init c.state = .done (some e) →
      CallMoves s t now made (s.goto t (.drop c e))
  | dropNew {c e} : s.calls t = .drop c e → c.isNew = true → CallMoves s t now made
      ({ s with flows := s.flows.erase c.key }.goto t (.loadBand c e))
  | dropOld {c e} : s.calls t = .drop c e → c.isNew = false → CallMoves s t now made
      ({ s with flows := s.flows.erase c.key }.goto t (.release c (some (provisionErr e))))
  | loadBand {c e b} : s.calls t = .loadBand c e → s.bands.table c.key.priority = some b →
      CallMoves s t now made (s.goto t (.unpinBand c e b))
  | noBand {c e} : s.calls t = .loadBand c e → s.bands.table c.key.priority = none →
      CallMoves s t now made (s.goto t (.release c (some (provisionErr e))))
  | unpinBand {c e b} : s.calls t = .unpinBand c e b → CallMoves s t now made
      ({ s with bands := s.bands.setObj b ((s.bands.obj b).unpin now) }.goto t
        (.release c (some (provisionErr e))))
  | release {c result} : s.calls t = .release c result → CallMoves s t now made
      ({ s with flows := s.flows.setObj c.state ((s.flows.obj c.state).unpin c.since) }.goto t
        (.returned result))

theorem callStep_moves {s s' : State Tid} {t : Tid} {now : Time} {made : Bool}
    (h : callStep s t now made = some s') : CallMoves s t now made s' := by
  cases hpc : s.calls t with
  | idle | callback | returned => simp [callStep, hpc] at h
  | pinFlow key pc =>
    cases pc with
    | load =>
      cases hv : s.flows.table key <;> simp [callStep, hpc, pinStep, hv] at h <;> subst h
      · exact .flowMissing hpc hv
      · exact .flowFound hpc (.inl rfl) hv
    | loadOrStore =>
      cases hv : s.flows.table key <;> simp [callStep, hpc, pinStep, hv] at h <;> subst h
      · exact .flowCreate hpc hv
      · exact .flowFound hpc (.inr rfl) hv
    | tryPin v isNew =>
      rcases (s.flows.obj v).tryPin_cases with ⟨hm, ht⟩ | ⟨hm, ht⟩ <;>
        simp [callStep, hpc, pinStep, ht] at h <;> subst h
      · exact .flowRefused hpc hm
      · exact .flowPin hpc hm
    | recheck v isNew =>
      by_cases hv : s.flows.table key = some v
      · cases isNew <;> simp [callStep, hpc, pinStep, hv] at h <;> subst h
        · exact .flowOld hpc hv
        · exact .flowNew hpc hv
      · simp [callStep, hpc, pinStep, hv] at h
        subst h
        exact .flowStale hpc hv
    | backOff v =>
      simp [callStep, hpc, pinStep] at h
      subst h
      exact .flowBackOff hpc
  | pinBand c pc =>
    cases pc with
    | load =>
      cases hv : s.bands.table c.key.priority <;> simp [callStep, hpc, pinStep, hv] at h <;> subst h
      · exact .bandMissing hpc hv
      · exact .bandFound hpc (.inl rfl) hv
    | loadOrStore =>
      cases hv : s.bands.table c.key.priority <;> simp [callStep, hpc, pinStep, hv] at h <;> subst h
      · exact .bandCreate hpc hv
      · exact .bandFound hpc (.inr rfl) hv
    | tryPin b isNew =>
      rcases (s.bands.obj b).tryPin_cases with ⟨hm, ht⟩ | ⟨hm, ht⟩ <;>
        simp [callStep, hpc, pinStep, ht] at h <;> subst h
      · exact .bandRefused hpc hm
      · exact .bandPin hpc hm
    | recheck b isNew =>
      by_cases hv : s.bands.table c.key.priority = some b
      · simp [callStep, hpc, pinStep, hv] at h
        subst h
        exact .bandKept hpc hv
      · simp [callStep, hpc, pinStep, hv] at h
        subst h
        exact .bandStale hpc hv
    | backOff b =>
      simp [callStep, hpc, pinStep] at h
      subst h
      exact .bandBackOff hpc
  | arm c =>
    simp [callStep, hpc] at h
    subst h
    exact .arm hpc
  | enter c =>
    cases hi : s.init c.state <;> simp [callStep, hpc, hi] at h <;> subst h
    · exact .enterFirst hpc hi
    · exact .enterDone hpc hi
  | lookupBand c =>
    cases hb : s.topo.config.priorityBands c.key.priority <;> simp [callStep, hpc, hb] at h <;> subst h
    · exact .bandAbsent hpc hb
    · exact .bandThere hpc (.inl rfl) (by simp [hb])
  | ensureBand c =>
    cases hb : s.topo.config.priorityBands c.key.priority with
    | some b =>
      simp [callStep, hpc, hb] at h
      subst h
      exact .bandThere hpc (.inr rfl) (by simp [hb])
    | none =>
      cases he : s.topo.ensurePriorityBand c.key.priority <;> simp [callStep, hpc, hb, he] at h <;> subst h
      · exact .crash hpc (.inl ⟨rfl, he⟩)
      · exact .ensureBand hpc hb he rfl
  | syncFlow c =>
    cases hb : s.topo.buildFlowComponents c.key made with
    | error e =>
      simp [callStep, hpc, hb] at h
      subst h
      exact .syncFail hpc hb
    | ok band =>
      cases hs : s.topo.synchronizeFlow c.key <;> simp [callStep, hpc, hb, hs] at h <;> subst h
      · refine .crash hpc (.inr ⟨rfl, hs, ?_⟩)
        cases hc : s.topo.config.priorityBands c.key.priority <;> simp_all [Topology.buildFlowComponents]
      · exact .syncOk hpc hb hs
  | check c =>
    cases hi : s.init c.state with
    | fresh | running => simp [callStep, hpc, hi] at h
    | done e =>
      cases e <;> simp [callStep, hpc, hi] at h <;> subst h
      · exact .checkOk hpc hi
      · exact .checkFail hpc hi
  | drop c e =>
    cases hn : c.isNew <;> simp [callStep, hpc, hn] at h <;> subst h
    · exact .dropOld hpc hn
    · exact .dropNew hpc hn
  | loadBand c e =>
    cases hb : s.bands.table c.key.priority <;> simp [callStep, hpc, hb] at h <;> subst h
    · exact .noBand hpc hb
    · exact .loadBand hpc hb
  | unpinBand c e b =>
    simp [callStep, hpc] at h
    subst h
    exact .unpinBand hpc
  | release c result =>
    simp [callStep, hpc] at h
    subst h
    exact .release hpc

/-- The collector's transitions. -/
inductive GcMoves (s : State Tid) : Act Tid → State Tid → Prop
  | begin {now} : s.gc = .idle → GcMoves s (.gcBegin now) { s with gc := .flows (.range { now }) }
  | visitFlow {sc k v} : s.gc = .flows (.range sc) → s.flows.table k = some v →
      GcMoves s (.gcVisitFlow k) { s with gc := .flows (.visit { sc with seen := k :: sc.seen } k v) }
  | keepFlow {sc k v now} : s.gc = .flows (.visit sc k v) →
      ((s.flows.obj v).checkAndMarkForDeletion s.topo.config.flowGCTimeout sc.now).1 = false →
      GcMoves s (.gcStep now) { s with
        flows := s.flows.setObj v
          ((s.flows.obj v).checkAndMarkForDeletion s.topo.config.flowGCTimeout sc.now).2
        gc := .flows (.range sc) }
  | markFlow {sc k v now} : s.gc = .flows (.visit sc k v) →
      ((s.flows.obj v).checkAndMarkForDeletion s.topo.config.flowGCTimeout sc.now).1 = true →
      GcMoves s (.gcStep now) { s with
        flows := s.flows.setObj v
          ((s.flows.obj v).checkAndMarkForDeletion s.topo.config.flowGCTimeout sc.now).2
        gc := .flows (.delete sc k v) }
  | deleteFlow {sc k v w now} : s.gc = .flows (.delete sc k v) → s.flows.table k = some w →
      GcMoves s (.gcStep now) { s with
        flows := s.flows.erase k, gc := .flows (.range { sc with found := sc.found ++ [w] }) }
  | flowGone {sc k v now} : s.gc = .flows (.delete sc k v) → s.flows.table k = none →
      GcMoves s (.gcStep now) { s with gc := .flows (.range sc) }
  | noFlows {sc} : s.gc = .flows (.range sc) → sc.found = [] → GcMoves s .gcEndRange { s with gc := .bandsBegin }
  | someFlows {sc} : s.gc = .flows (.range sc) → sc.found ≠ [] →
      GcMoves s .gcEndRange { s with gc := .releaseFlows sc.found [] }
  | loadBand {v todo keys b now} : s.gc = .releaseFlows (v :: todo) keys →
      s.bands.table (s.flows.key v).priority = some b → GcMoves s (.gcStep now) { s with gc := .unpinBand b v todo keys }
  | noBand {v todo keys now} : s.gc = .releaseFlows (v :: todo) keys →
      s.bands.table (s.flows.key v).priority = none →
      GcMoves s (.gcStep now) { s with gc := .releaseFlows todo (keys ++ [s.flows.key v]) }
  | unpinBand {b v todo keys now} : s.gc = .unpinBand b v todo keys → GcMoves s (.gcStep now) { s with
      bands := s.bands.setObj b ((s.bands.obj b).unpin now)
      gc := .releaseFlows todo (keys ++ [s.flows.key v]) }
  | cleanFlows {keys now} : s.gc = .releaseFlows [] keys → GcMoves s (.gcStep now) { s with
      topo := s.topo.cleanupFlowResources (fun k => (s.flows.table k).isSome) keys
      gc := .bandsBegin }
  | bandsBegin {now} : s.gc = .bandsBegin → GcMoves s (.gcStep now) { s with gc := .bands (.range { now }) }
  | visitBand {sc p b} : s.gc = .bands (.range sc) → s.bands.table p = some b →
      GcMoves s (.gcVisitBand p) { s with gc := .bands (.visit { sc with seen := p :: sc.seen } p b) }
  | keepBand {sc p b now} : s.gc = .bands (.visit sc p b) →
      ((s.bands.obj b).checkAndMarkForDeletion s.topo.config.priorityBandGCTimeout sc.now).1 = false →
      GcMoves s (.gcStep now) { s with
        bands := s.bands.setObj b
          ((s.bands.obj b).checkAndMarkForDeletion s.topo.config.priorityBandGCTimeout sc.now).2
        gc := .bands (.range sc) }
  | markBand {sc p b now} : s.gc = .bands (.visit sc p b) →
      ((s.bands.obj b).checkAndMarkForDeletion s.topo.config.priorityBandGCTimeout sc.now).1 = true →
      GcMoves s (.gcStep now) { s with
        bands := s.bands.setObj b
          ((s.bands.obj b).checkAndMarkForDeletion s.topo.config.priorityBandGCTimeout sc.now).2
        gc := .bands (.delete sc p b) }
  | deleteBand {sc p b w now} : s.gc = .bands (.delete sc p b) → s.bands.table p = some w →
      GcMoves s (.gcStep now) { s with
        bands := s.bands.erase p, gc := .bands (.range { sc with found := sc.found ++ [w] }) }
  | bandGone {sc p b now} : s.gc = .bands (.delete sc p b) → s.bands.table p = none →
      GcMoves s (.gcStep now) { s with gc := .bands (.range sc) }
  | noBands {sc} : s.gc = .bands (.range sc) → sc.found = [] → GcMoves s .gcEndRange { s with gc := .idle }
  | someBands {sc} : s.gc = .bands (.range sc) → sc.found ≠ [] →
      GcMoves s .gcEndRange { s with gc := .cleanBands (sc.found.map s.bands.key) }
  | cleanBands {ps now} : s.gc = .cleanBands ps → GcMoves s (.gcStep now) { s with
      topo := s.topo.cleanupPriorityBandResources (fun p => (s.bands.table p).isSome) ps
      gc := .idle }

/-- The transitions of the system. -/
inductive Moves (s : State Tid) : Act Tid → State Tid → Prop
  | start {t key} : s.calls t = .idle ∨ (∃ r, s.calls t = .returned r) →
      Moves s (.start t key) (s.goto t (.pinFlow key .load))
  | refuse {t key} : s.calls t = .idle ∨ (∃ r, s.calls t = .returned r) → key.id = "" →
      Moves s (.start t key) (s.goto t (.returned (some (.sentinel errFlowIDEmpty))))
  | finish {t c result} : s.calls t = .callback c → Moves s (.finish t result) (s.goto t (.release c result))
  | call {t now made s'} : CallMoves s t now made s' → Moves s (.call t now made) s'
  | gc {a s'} : GcMoves s a s' → Moves s a s'
  | stats {p l b topo} : s.topo.propagateStatsDelta p l b = some topo → Moves s (.stats p l b) { s with topo }

omit [DecidableEq Tid] in
theorem gcStep_moves {s s' : State Tid} {now : Time} (h : gcStep s now = some s') :
    GcMoves s (.gcStep now) s' := by
  cases hpc : s.gc with
  | idle => simp [gcStep, hpc] at h
  | flows pc =>
    cases pc with
    | range sc => simp [gcStep, hpc, collectStep] at h
    | visit sc k v =>
      cases hc : ((s.flows.obj v).checkAndMarkForDeletion s.topo.config.flowGCTimeout sc.now).1 <;>
        simp [gcStep, hpc, collectStep, hc] at h <;> subst h
      · exact .keepFlow hpc hc
      · exact .markFlow hpc hc
    | delete sc k v =>
      cases hw : s.flows.table k <;> simp [gcStep, hpc, collectStep, hw] at h <;> subst h
      · exact .flowGone hpc hw
      · exact .deleteFlow hpc hw
  | releaseFlows todo keys =>
    cases todo with
    | nil =>
      simp [gcStep, hpc] at h
      subst h
      exact .cleanFlows hpc
    | cons v todo =>
      cases hb : s.bands.table (s.flows.key v).priority <;> simp [gcStep, hpc, hb] at h <;> subst h
      · exact .noBand hpc hb
      · exact .loadBand hpc hb
  | unpinBand b v todo keys =>
    simp [gcStep, hpc] at h
    subst h
    exact .unpinBand hpc
  | bandsBegin =>
    simp [gcStep, hpc] at h
    subst h
    exact .bandsBegin hpc
  | bands pc =>
    cases pc with
    | range sc => simp [gcStep, hpc, collectStep] at h
    | visit sc p b =>
      cases hc : ((s.bands.obj b).checkAndMarkForDeletion s.topo.config.priorityBandGCTimeout sc.now).1 <;>
        simp [gcStep, hpc, collectStep, hc] at h <;> subst h
      · exact .keepBand hpc hc
      · exact .markBand hpc hc
    | delete sc p b =>
      cases hw : s.bands.table p <;> simp [gcStep, hpc, collectStep, hw] at h <;> subst h
      · exact .bandGone hpc hw
      · exact .deleteBand hpc hw
  | cleanBands ps =>
    simp [gcStep, hpc] at h
    subst h
    exact .cleanBands hpc

omit [DecidableEq Tid] in
theorem gcEndRange_moves {s s' : State Tid} (h : gcEndRange s = some s') : GcMoves s .gcEndRange s' := by
  unfold gcEndRange at h
  split at h
  · rename_i sc hpc
    by_cases hf : sc.found = [] <;> simp [hf] at h <;> subst h
    · exact .noFlows hpc hf
    · exact .someFlows hpc hf
  · rename_i sc hpc
    by_cases hf : sc.found = [] <;> simp [hf] at h <;> subst h
    · exact .noBands hpc hf
    · exact .someBands hpc hf
  · cases h

/-- **What a step can do**, guards included. -/
theorem step_moves {s s' : State Tid} {a : Act Tid} (h : step s a = some s') : Moves s a s' := by
  unfold step at h
  cases a with
  | start t key =>
    simp only at h
    split at h
    · cases h
    · have hend : ∀ pc, s.calls t = pc → (pc = .idle ∨ ∃ r, pc = .returned r) →
          (if key.id = "" then some (s.goto t (.returned (some (.sentinel errFlowIDEmpty))))
            else some (s.goto t (.pinFlow key .load))) = some s' → Moves s (.start t key) s' := by
        rintro pc rfl hpc h
        split at h <;> cases h
        · exact .refuse hpc ‹_›
        · exact .start hpc
      split at h
      · exact hend _ ‹_› (.inl rfl) h
      · exact hend _ ‹_› (.inr ⟨_, rfl⟩) h
      · cases h
  | call t now made =>
    simp only at h
    split at h
    · cases h
    · exact .call (callStep_moves h)
  | finish t result =>
    simp only at h
    split at h
    · cases h
    · split at h <;> cases h
      exact .finish ‹_›
  | gcBegin now =>
    simp only at h
    split at h
    · cases h
    · split at h <;> cases h
      exact .gc (.begin ‹_›)
  | gcVisitFlow k =>
    simp only at h
    split at h
    · cases h
    · split at h
      · rename_i pc hpc
        cases pc <;> simp only [collectVisit, Option.map_none, reduceCtorEq] at h
        split at h
        · cases h
        · simp only [Option.map_map, Option.map_eq_some_iff, comp_apply] at h
          obtain ⟨v, hv, rfl⟩ := h
          exact .gc (.visitFlow hpc hv)
      · cases h
  | gcVisitBand p =>
    simp only at h
    split at h
    · cases h
    · split at h
      · rename_i pc hpc
        cases pc <;> simp only [collectVisit, Option.map_none, reduceCtorEq] at h
        split at h
        · cases h
        · simp only [Option.map_map, Option.map_eq_some_iff, comp_apply] at h
          obtain ⟨b, hb, rfl⟩ := h
          exact .gc (.visitBand hpc hb)
      · cases h
  | gcEndRange =>
    simp only at h
    split at h
    · cases h
    · exact .gc (gcEndRange_moves h)
  | gcStep now =>
    simp only at h
    split at h
    · cases h
    · exact .gc (gcStep_moves h)
  | stats p l b =>
    simp only at h
    split at h
    · cases h
    · obtain ⟨topo, ht, rfl⟩ := Option.map_eq_some_iff.mp h
      exact .stats ht

/-! ## The views agree in every run -/

/-- The views agree, and no section under the registry lock has panicked. -/
structure Sound (s : State Tid) : Prop where
  agrees : s.topo.Agrees
  running : s.crashed = false

theorem CallMoves.sound {s s' : State Tid} {t : Tid} {now : Time} {made : Bool} (h : Sound s)
    (m : CallMoves s t now made s') : Sound s' := by
  cases m with
  | ensureBand _ _ he _ =>
    obtain ⟨topo, ht, hag⟩ := h.agrees.ensurePriorityBand
    rw [he, Option.some.injEq] at ht
    exact ⟨ht ▸ hag, h.running⟩
  | @syncOk c band topo _ hb hs =>
    have hc : (s.topo.config.priorityBands c.key.priority).isSome := by
      cases hc : s.topo.config.priorityBands c.key.priority <;> simp_all [Topology.buildFlowComponents]
    obtain ⟨topo', ht, hag, -, -⟩ := h.agrees.synchronizeFlow hc
    rw [hs, Option.some.injEq] at ht
    exact ⟨ht ▸ hag, h.running⟩
  | crash _ hc =>
    rcases hc with ⟨-, he⟩ | ⟨-, hs, hc⟩
    · obtain ⟨topo, ht, -⟩ := h.agrees.ensurePriorityBand
      rw [he] at ht
      cases ht
    · obtain ⟨topo, ht, -⟩ := h.agrees.synchronizeFlow hc
      rw [hs] at ht
      cases ht
  | _ => exact ⟨h.agrees, h.running⟩

omit [DecidableEq Tid] in
theorem GcMoves.sound {s s' : State Tid} {a : Act Tid} (h : Sound s) (m : GcMoves s a s') : Sound s' := by
  cases m with
  | cleanFlows => exact ⟨h.agrees.cleanupFlowResources _ _, h.running⟩
  | cleanBands => exact ⟨h.agrees.cleanupPriorityBandResources _ _, h.running⟩
  | _ => exact ⟨h.agrees, h.running⟩

theorem Moves.sound {s s' : State Tid} {a : Act Tid} (h : Sound s) (m : Moves s a s') : Sound s' := by
  cases m with
  | call m | gc m => exact m.sound h
  | stats ht => exact ⟨h.agrees.propagateStatsDelta ht, h.running⟩
  | _ => exact ⟨h.agrees, h.running⟩

theorem sound_reaches {cfg : InitialConfig} {ok : State Tid → Act Tid → Prop} {s : State Tid}
    (h : Reaches step ok (State.new cfg) s) : Sound s :=
  h.invariant Sound ⟨Topology.new_agrees cfg, rfl⟩ fun _ _ _ hi _ hs => (step_moves hs).sound hi

end InferenceScheduler.Registry
