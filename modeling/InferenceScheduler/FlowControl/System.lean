/-
The flow-control system: the flow registry and the flow controller together.
What the registry answers is computed from its state (`answer`), and what a
queue operation reports is a step of the registry (`queueChange`). So every run
is a run of both (`registry_reaches`, `controller_reaches`), and what was proved
of each holds here.
-/
import InferenceScheduler.Registry.PinnedFlows
import InferenceScheduler.Controller.Placement

namespace InferenceScheduler.FlowControl

open Registry (Topology Shard)

/-! ## What the shard answers -/

/-- A Go `uint64`. -/
def uint64 (x : Int) : Nat := (x % 2 ^ 64).toNat

/-- A use beyond a limit; a limit of 0 is none. -/
def exceeds (capacity : Nat) (use : Int) : Bool := capacity > 0 && uint64 use > capacity

def hasCapacity (shard : Shard) (priority : Int) (itemByteSize : Nat) : Bool :=
  if exceeds shard.config.maxBytes (shard.totalByteSize + itemByteSize) then false
  else if exceeds shard.config.maxRequests (shard.totalLen + 1) then false
  else
    match shard.priorityBands priority with
    | none => false
    | some band =>
      if exceeds band.config.maxBytes (band.byteSize + itemByteSize) then false
      else if exceeds band.config.maxRequests (band.len + 1) then false
      else true

def bandError (shard : Shard) (priority : Int) : Option GoError :=
  if (shard.priorityBands priority).isSome then none
  else some (.errorf "failed to get priority band accessor for priority %d: %w"
    [.sentinel errPriorityBandNotFound])

/-- The shard still holds queue `q`. -/
def registered (t : Topology) (q : Nat) : Bool :=
  match t.shard.priorityBands (t.queueKey q).priority with
  | some band => band.queues (t.queueKey q).id = some q
  | none => false

/-- As `IterateQueues` finds them; the order of a map's keys is not determined. -/
def bandKeys (t : Topology) (priority : Int) : List FlowKey :=
  ((List.range t.nextQueue).filter fun q => registered t q && (t.queueKey q).priority = priority).map t.queueKey

variable {q : Nat} {t : Topology}

theorem hasQueue_of_registered (h : registered t q = true) : t.HasQueue (t.queueKey q) q := by
  unfold registered at h
  split at h
  · rename_i band hb
    exact ⟨band, hb, by simpa using h⟩
  · cases h

variable {key k : FlowKey}

theorem registered_iff (ht : t.Agrees) :
    t.HasQueue key q ↔ registered t q = true ∧ t.queueKey q = key ∧ q < t.nextQueue := by
  constructor
  · rintro ⟨band, hb, hq⟩
    obtain ⟨hlt, hkey⟩ := ht.queues _ band _ q hb hq
    refine ⟨?_, hkey, hlt⟩
    unfold registered
    rw [hkey]
    simp [hb, hq]
  · rintro ⟨hr, rfl, -⟩
    exact hasQueue_of_registered hr

theorem HasQueue.key_eq (ht : t.Agrees) {k' : FlowKey} (h : t.HasQueue k q) (h' : t.HasQueue k' q) : k = k' := by
  rw [registered_iff ht] at h h'
  exact h.2.1.symm.trans h'.2.1

theorem HasQueue.queue_eq {q' : Nat} (h : t.HasQueue k q) (h' : t.HasQueue k q') : q = q' := by
  obtain ⟨band, hb, hq⟩ := h
  obtain ⟨band', hb', hq'⟩ := h'
  rw [hb] at hb'
  cases hb'
  rw [hq] at hq'
  exact Option.some.inj hq'

theorem mem_bandKeys (ht : t.Agrees) (h : t.HasQueue key q) : key ∈ bandKeys t key.priority := by
  obtain ⟨hr, hk, hlt⟩ := (registered_iff ht).mp h
  unfold bandKeys
  refine List.mem_map.mpr ⟨q, List.mem_filter.mpr ⟨List.mem_range.mpr hlt, ?_⟩, hk⟩
  simp [hr, hk]

theorem mem_levels (ht : t.Agrees) (h : t.HasQueue key q) : key.priority ∈ t.shard.orderedPriorityLevels := by
  obtain ⟨band, hb, -⟩ := h
  rw [ht.levels, (ht.configs _ band hb).1]
  rfl

/-! ## The system -/

/-- `panicked`: a statistics update found no band. -/
structure State (Tid : Type) where
  registry : Registry.State Tid
  controller : Controller.State Tid
  panicked : Bool := false

/-- In a call's `start`, `connected`, `refused`, `finish` and `leave` the controller
and the registry meet. -/
inductive Act (Tid : Type)
  | start (t : Tid) (r : Controller.Request)
  | connected (t : Tid)
  | refused (t : Tid)
  | finish (t : Tid)
  | leave (t : Tid)
  | registry (a : Registry.Act Tid)
  | controller (a : Controller.Act Tid)

/-- The registry's steps that no other step of the system includes. -/
def internal {Tid : Type} : Registry.Act Tid → Bool
  | .call _ _ _ | .gcBegin _ | .gcVisitFlow _ | .gcVisitBand _ | .gcEndRange | .gcStep _ => true
  | .start _ _ | .finish _ _ | .stats _ _ _ => false

variable {Tid : Type} [DecidableEq Tid]

/-- A configured registry and an idle controller. -/
def State.new (cfg : Registry.InitialConfig) (bufferSize : Nat) : State Tid where
  registry := .new cfg
  controller := .new bufferSize

/-- A label of the controller with the registry's own answer in it. -/
def State.answer (s : State Tid) : Controller.Act Tid → Controller.Act Tid
  | .call t (.candidates c) =>
    match s.controller.calls t with
    | .candidates r =>
      .call t (.candidates (match s.registry.topo.shard.managedQueue r.key with
        | .ok _ => .found
        | .error _ => .skipped))
    | _ => .call t (.candidates c)
  | .run (.queue _) =>
    .run (.queue (s.registry.topo.shard.managedQueue (s.controller.items (s.controller.run.item.getD 0)).key))
  | .run (.band _) =>
    .run (.band (bandError s.registry.topo.shard (s.controller.items (s.controller.run.item.getD 0)).key.priority))
  | .run (.capacity _) =>
    let item := s.controller.items (s.controller.run.item.getD 0)
    .run (.capacity (hasCapacity s.registry.topo.shard item.key.priority item.byteSize))
  | .run (.add _) => .run (.add false)
  | .run (.levels saturation levels) =>
    .run (.levels saturation (s.registry.topo.shard.orderedPriorityLevels.zip (levels.map (·.2))))
  | .pool p (.levels _) => .pool p (.levels s.registry.topo.shard.orderedPriorityLevels)
  | .pool p (.queue w answer) =>
    match (s.controller.pools p).workers w with
    | .lookup key => .pool p (.queue w (s.registry.topo.shard.managedQueue key))
    | _ => .pool p (.queue w answer)
  | a => a

/-- The controller's steps that no other step of the system includes; a
band's queues come in any order. -/
def State.admits (s : State Tid) : Controller.Act Tid → Bool
  | .call _ (.start _) | .call _ .connected | .call _ (.refused _) | .call _ .leave => false
  | .pool p (.band keys) =>
    match (s.controller.pools p).pc with
    | .collect (priority :: _) => keys.Perm (bandKeys s.registry.topo priority)
    | _ => false
  | _ => true

/-- The total byte size of items. -/
def bytes (c : Controller.State Tid) (is : List Nat) : Int := (is.map fun i => ((c.items i).byteSize : Int)).sum

/-- What a step adds to a queue's length and byte size, as the managed queue reports it. -/
def queueChange (c : Controller.State Tid) : Controller.Act Tid → Option (Nat × Int × Int)
  | .run (.add _) =>
    match c.run with
    | .add i q => some (q, 1, bytes c [i])
    | _ => none
  | .run .next =>
    match c.run with
    | .remove i q => if i ∈ c.queues q then some (q, -1, -bytes c [i]) else none
    | _ => none
  | .pool p (.process w removed) =>
    match (c.pools p).workers w with
    | .process q =>
      let out := if p = .sweep then (c.queues q).filter (· ∈ removed) else c.queues q
      if out = [] then none else some (q, -out.length, -bytes c out)
    | _ => none
  | _ => none

/-- A step of the controller with the registry's answer and the queue's report. -/
def controllerStep (s : State Tid) (a : Controller.Act Tid) : Option (State Tid) :=
  if s.admits a then
    (Controller.step s.controller (s.answer a)).bind fun controller =>
      match queueChange s.controller a with
      | none => some { s with controller }
      | some (q, len, size) =>
        match Registry.step s.registry (.stats (s.registry.topo.queueKey q).priority len size) with
        | some registry => some { s with registry, controller }
        | none => some { s with panicked := true }
  else none

/-- The system. -/
def step (s : State Tid) (a : Act Tid) : Option (State Tid) :=
  if s.panicked then none else
  match a with
  | .start t r =>
    (Registry.step s.registry (.start t r.key)).bind fun registry =>
      (Controller.step s.controller (.call t (.start r))).map fun controller => { s with registry, controller }
  | .connected t =>
    match s.registry.calls t with
    | .callback _ => (Controller.step s.controller (.call t .connected)).map fun controller => { s with controller }
    | _ => none
  | .refused t =>
    match s.registry.calls t with
    | .returned (some err) =>
      (Controller.step s.controller (.call t (.refused err))).map fun controller => { s with controller }
    | _ => none
  | .finish t =>
    match s.controller.calls t with
    | .leaving _ fs => (Registry.step s.registry (.finish t fs.err)).map fun registry => { s with registry }
    | _ => none
  | .leave t =>
    match s.registry.calls t with
    | .returned _ => (Controller.step s.controller (.call t .leave)).map fun controller => { s with controller }
    | _ => none
  | .registry a =>
    if internal a then (Registry.step s.registry a).map fun registry => { s with registry } else none
  | .controller a => controllerStep s a

/-! ## What a step can do -/

/-- The steps of the system. -/
inductive Moves (s : State Tid) : Act Tid → State Tid → Prop
  | start {t r registry} : s.controller.calls t = .idle →
      Registry.step s.registry (.start t r.key) = some registry →
      Moves s (.start t r) { s with registry, controller := s.controller.goto t (.connecting r) }
  | connected {t r c} : s.registry.calls t = .callback c → s.controller.calls t = .connecting r →
      Moves s (.connected t) { s with controller := s.controller.goto t (.lifecycle r) }
  | refused {t r err} : s.registry.calls t = .returned (some err) → s.controller.calls t = .connecting r →
      Moves s (.refused t) { s with
        controller := s.controller.goto t (.returned none (Controller.finish ⟨.notYetFinalized, some err⟩)) }
  | finish {t src fs registry} : s.controller.calls t = .leaving src fs →
      Registry.step s.registry (.finish t fs.err) = some registry → Moves s (.finish t) { s with registry }
  | leave {t result src fs} : s.registry.calls t = .returned result → s.controller.calls t = .leaving src fs →
      Moves s (.leave t) { s with controller := s.controller.goto t (.returned src (Controller.finish fs)) }
  | registry {a registry} : internal a = true → Registry.step s.registry a = some registry →
      Moves s (.registry a) { s with registry }
  | controller {a controller} : s.admits a = true →
      Controller.step s.controller (s.answer a) = some controller → queueChange s.controller a = none →
      Moves s (.controller a) { s with controller }
  | queue {a controller q len size registry} : s.admits a = true →
      Controller.step s.controller (s.answer a) = some controller →
      queueChange s.controller a = some (q, len, size) →
      Registry.step s.registry (.stats (s.registry.topo.queueKey q).priority len size) = some registry →
      Moves s (.controller a) { s with registry, controller }
  | panic {a controller q len size} : s.admits a = true →
      Controller.step s.controller (s.answer a) = some controller →
      queueChange s.controller a = some (q, len, size) →
      Registry.step s.registry (.stats (s.registry.topo.queueKey q).priority len size) = none →
      Moves s (.controller a) { s with panicked := true }

variable {s s' : State Tid}

theorem controllerStep_moves {a : Controller.Act Tid} (h : controllerStep s a = some s') :
    Moves s (.controller a) s' := by
  unfold controllerStep at h
  split at h
  · rename_i hadm
    obtain ⟨controller, hc, h⟩ := Option.bind_eq_some_iff.mp h
    split at h
    · cases h
      exact .controller hadm hc ‹_›
    · split at h
      · cases h
        exact .queue hadm hc ‹_› ‹_›
      · cases h
        exact .panic hadm hc ‹_› ‹_›
  · cases h

variable {a : Act Tid}

theorem step_moves (h : step s a = some s') : s.panicked = false ∧ Moves s a s' := by
  unfold step at h
  split at h
  · cases h
  · refine ⟨by simp_all, ?_⟩
    cases a with
    | start t r =>
      obtain ⟨registry, hr, h⟩ := Option.bind_eq_some_iff.mp h
      obtain ⟨controller, hc, rfl⟩ := Option.map_eq_some_iff.mp h
      simp only [Controller.step, Controller.callStep] at hc
      cases hpc : s.controller.calls t <;> rw [hpc] at hc <;> cases hc
      exact .start hpc hr
    | connected t =>
      simp only at h
      split at h
      · obtain ⟨controller, hc, rfl⟩ := Option.map_eq_some_iff.mp h
        simp only [Controller.step, Controller.callStep] at hc
        cases hpc : s.controller.calls t <;> rw [hpc] at hc <;> cases hc
        exact .connected ‹_› hpc
      · cases h
    | refused t =>
      simp only at h
      split at h
      · obtain ⟨controller, hc, rfl⟩ := Option.map_eq_some_iff.mp h
        simp only [Controller.step, Controller.callStep] at hc
        cases hpc : s.controller.calls t <;> rw [hpc] at hc <;> cases hc
        exact .refused ‹_› hpc
      · cases h
    | finish t =>
      simp only at h
      split at h
      · obtain ⟨registry, hr, rfl⟩ := Option.map_eq_some_iff.mp h
        exact .finish ‹_› hr
      · cases h
    | leave t =>
      simp only at h
      split at h
      · obtain ⟨controller, hc, rfl⟩ := Option.map_eq_some_iff.mp h
        simp only [Controller.step, Controller.callStep] at hc
        cases hpc : s.controller.calls t <;> rw [hpc] at hc <;> cases hc
        exact .leave ‹_› hpc
      · cases h
    | registry a =>
      simp only at h
      split at h
      · obtain ⟨registry, hr, rfl⟩ := Option.map_eq_some_iff.mp h
        exact .registry ‹_› hr
      · cases h
    | controller a => exact controllerStep_moves h

/-! ## The system runs both of its parts -/

/-- The registry's step in a step of the system. -/
def State.registryAct (s : State Tid) : Act Tid → Option (Registry.Act Tid)
  | .start t r => some (.start t r.key)
  | .finish t =>
    match s.controller.calls t with
    | .leaving _ fs => some (.finish t fs.err)
    | _ => none
  | .registry a => some a
  | .controller a =>
    (queueChange s.controller a).map fun x => .stats (s.registry.topo.queueKey x.1).priority x.2.1 x.2.2
  | .connected _ | .refused _ | .leave _ => none

theorem Moves.registry_step (h : Moves s a s') : s'.registry = s.registry ∨
    ∃ b, s.registryAct a = some b ∧ Registry.step s.registry b = some s'.registry := by
  cases h with
  | start _ hr | registry _ hr => exact .inr ⟨_, rfl, hr⟩
  | finish hpc hr => exact .inr ⟨_, by rw [State.registryAct, hpc], hr⟩
  | queue _ _ hq hr => exact .inr ⟨_, by rw [State.registryAct, hq]; rfl, hr⟩
  | connected | refused | leave | controller | panic => exact .inl rfl

/-- What the shard answers the controller. -/
structure Answers (t : Topology) (c : Controller.State Tid) (b : Controller.Act Tid) : Prop where
  queue : ∀ {answer}, b = .run (.queue answer) →
    answer = t.shard.managedQueue (c.items (c.run.item.getD 0)).key
  levels : ∀ {p ps}, b = .pool p (.levels ps) → ps = t.shard.orderedPriorityLevels
  band : ∀ {p keys priority ps}, b = .pool p (.band keys) → (c.pools p).pc = .collect (priority :: ps) →
    keys.Perm (bandKeys t priority)
  poolQueue : ∀ {p w answer key}, b = .pool p (.queue w answer) → (c.pools p).workers w = .lookup key →
    answer = t.shard.managedQueue key

omit [DecidableEq Tid] in
theorem answers {a : Controller.Act Tid} (h : s.admits a = true) :
    Answers s.registry.topo s.controller (s.answer a) := by
  cases a with
  | stop | cancel | finalize => exact ⟨nofun, nofun, nofun, nofun⟩
  | call t a =>
    have hcall : ∃ a', s.answer (.call t a) = .call t a' := by
      cases a with
      | candidates c =>
        cases hpc : s.controller.calls t <;> simp [State.answer, hpc]
      | _ => exact ⟨_, rfl⟩
    obtain ⟨a', ha'⟩ := hcall
    rw [ha']
    exact ⟨nofun, nofun, nofun, nofun⟩
  | run a =>
    cases a with
    | queue answer => exact ⟨fun hb => by cases hb; rfl, nofun, nofun, nofun⟩
    | _ => exact ⟨nofun, nofun, nofun, nofun⟩
  | pool p a =>
    cases a with
    | levels ps => exact ⟨nofun, fun hb => by cases hb; rfl, nofun, nofun⟩
    | band keys =>
      refine ⟨nofun, nofun, fun hb hpc => ?_, nofun⟩
      cases hb
      simp only [State.admits, hpc] at h
      exact of_decide_eq_true h
    | queue w answer =>
      cases hw : (s.controller.pools p).workers w <;> simp only [State.answer, hw]
      case lookup key =>
        refine ⟨nofun, nofun, nofun, fun hb hw' => ?_⟩
        cases hb
        rw [hw] at hw'
        cases hw'
        rfl
      all_goals
        refine ⟨nofun, nofun, nofun, fun hb hw' => ?_⟩
        cases hb
        rw [hw] at hw'
        cases hw'
    | _ => exact ⟨nofun, nofun, nofun, nofun⟩

/-- The controller's step in a step of the system. -/
def State.controllerAct (s : State Tid) : Act Tid → Option (Controller.Act Tid)
  | .start t r => some (.call t (.start r))
  | .connected t => some (.call t .connected)
  | .refused t =>
    match s.registry.calls t with
    | .returned (some err) => some (.call t (.refused err))
    | _ => none
  | .leave t => some (.call t .leave)
  | .controller a => if s.admits a then some (s.answer a) else none
  | .finish _ | .registry _ => none

/-- The step of the system that is step `x` of call `t`. -/
def Act.IsCall (a : Act Tid) (t : Tid) : Controller.CallAct → Prop
  | .start r => a = .start t r
  | .connected => a = .connected t
  | .refused _ => a = .refused t
  | .leave => a = .leave t
  | .candidates _ => ∃ c, a = .controller (.call t (.candidates c))
  | x => a = .controller (.call t x)

omit [DecidableEq Tid] in
theorem controllerAct_call {t : Tid} {x : Controller.CallAct}
    (h : s.controllerAct a = some (.call t x)) : a.IsCall t x := by
  cases a with
  | start | connected | leave => cases h; rfl
  | refused u =>
    simp only [State.controllerAct] at h
    split at h <;> cases h
    rfl
  | finish | registry => cases h
  | controller a =>
    simp only [State.controllerAct, Option.ite_none_right_eq_some, Option.some.injEq] at h
    obtain ⟨hadm, h⟩ := h
    cases a with
    | stop | cancel | finalize => cases h
    | call u y =>
      cases y with
      | candidates c =>
        cases hpc : s.controller.calls u <;> simp only [State.answer, hpc] at h <;> cases h <;> exact ⟨_, rfl⟩
      | start | connected | refused | leave => cases hadm
      | _ => cases h; rfl
    | run y => cases y <;> cases h
    | pool p y =>
      cases y with
      | queue w answer => cases hw : (s.controller.pools p).workers w <;> simp [State.answer, hw] at h
      | _ => cases h

theorem Moves.controller_step (h : Moves s a s') : s'.controller = s.controller ∨
    ∃ b, s.controllerAct a = some b ∧ Controller.step s.controller b = some s'.controller ∧
      Answers s.registry.topo s.controller b := by
  cases h with
  | @start t r _ hpc | @connected t r _ _ hpc | @leave t _ _ _ _ hpc =>
    exact .inr ⟨_, rfl, by simp only [Controller.step, Controller.callStep, hpc], ⟨nofun, nofun, nofun, nofun⟩⟩
  | @refused t r err hr hpc =>
    exact .inr ⟨.call t (.refused err), by simp only [State.controllerAct, hr],
      by simp only [Controller.step, Controller.callStep, hpc], ⟨nofun, nofun, nofun, nofun⟩⟩
  | controller ha hc | queue ha hc => exact .inr ⟨_, if_pos ha, hc, answers ha⟩
  | finish | registry | panic => exact .inl rfl

variable {cfg : Registry.InitialConfig} {n : Nat} {ok : State Tid → Act Tid → Prop}

theorem registry_reaches {okRegistry : Registry.State Tid → Registry.Act Tid → Prop}
    (hok : ∀ s a b, ok s a → s.registryAct a = some b → okRegistry s.registry b)
    (h : Reaches step ok (State.new cfg n) s) :
    Reaches Registry.step okRegistry (Registry.State.new cfg) s.registry := by
  refine h.project State.registry fun s a s' ha hs => ?_
  rcases (step_moves hs).2.registry_step with he | ⟨b, hb, hr⟩
  · exact .inl he
  · exact .inr ⟨b, hok s a b ha hb, hr⟩

theorem controller_reaches (h : Reaches step ok (State.new cfg n) s) :
    Reaches Controller.step Any (Controller.State.new n) s.controller := by
  refine h.project State.controller fun s a s' _ hs => ?_
  rcases (step_moves hs).2.controller_step with he | ⟨b, -, hc, -⟩
  · exact .inl he
  · exact .inr ⟨b, trivial, hc⟩

/-! ## Pieces of runs -/

/-- A call on a new flow of the configured band, up to its callback. -/
def connect (r : Controller.Request) : List (Act Unit) :=
  .start () r :: List.replicate 13 (.registry (.call () 1 true)) ++ [.connected ()]

def distribute : List (Act Unit) :=
  [.controller (.call () .next), .controller (.call () (.candidates .found)), .controller (.call () .next)]

/-- `Run` queues an item from the channel; the cycle finds the pool saturated. -/
def enqueue : List (Act Unit) :=
  [.receive, .next, .queue (.ok 0), .band none, .capacity true, .add false, .levels 1 [(0, 0)], .next].map
    fun a => .controller (.run a)

/-! ## Steps of the collector -/

/-- The collector's steps. -/
def isGc {Tid : Type} : Registry.Act Tid → Bool
  | .gcBegin _ | .gcVisitFlow _ | .gcVisitBand _ | .gcEndRange | .gcStep _ => true
  | .start _ _ | .call _ _ _ | .finish _ _ | .stats _ _ _ => false

def Act.collects : Act Tid → Bool
  | .registry a => isGc a
  | _ => false

/-- The step is none of the collector's. -/
def WithoutGc (_ : State Tid) (a : Act Tid) : Prop := a.collects = false

instance (s : State Tid) (a : Act Tid) : Decidable (WithoutGc s a) := inferInstanceAs (Decidable (_ = _))

theorem hasQueue_of_isGc {r r' : Registry.State Tid} {b : Registry.Act Tid}
    (hs : Registry.Sound r) (hno : isGc b = false) (m : Registry.Moves r b r') (h : r.topo.HasQueue k q) :
    r'.topo.HasQueue k q := by
  cases m with
  | start | refuse | finish => exact h
  | call m => exact m.hasQueue hs h
  | gc m => cases m <;> cases hno
  | stats ht => exact (Topology.hasQueue_propagateStatsDelta ht).mpr h

theorem Moves.hasQueue (m : Moves s a s') (hs : Registry.Sound s.registry)
    (hgc : WithoutGc s a) (h : s.registry.topo.HasQueue k q) : s'.registry.topo.HasQueue k q := by
  rcases m.registry_step with he | ⟨b, hb, hr⟩
  · rw [he]
    exact h
  · refine hasQueue_of_isGc hs ?_ (Registry.step_moves hr) h
    cases a with
    | registry a => cases hb; exact hgc
    | start => cases hb; rfl
    | connected | refused | leave => cases hb
    | finish u =>
      simp only [State.registryAct] at hb
      split at hb <;> cases hb
      rfl
    | controller a =>
      obtain ⟨x, -, rfl⟩ := Option.map_eq_some_iff.mp hb
      rfl

/-! ## Items and their queues -/

/-- Every item queued or about to be is in the queue the shard holds for its flow. -/
structure Homes (t : Topology) (c : Controller.State Tid) : Prop where
  queue : ∀ {q i}, i ∈ c.queues q → t.HasQueue (c.items i).key q
  target : ∀ {i q}, c.run.target = some (i, q) → t.HasQueue (c.items i).key q

theorem Homes.step {c c' : Controller.State Tid} {b : Controller.Act Tid} (h : Homes t c)
    (hal : Controller.Allocated c) (hans : Answers t c b) (m : Controller.Moves c b c') : Homes t c' := by
  constructor
  · intro q i hi
    rcases m.mem_queue hi with hi | hrun
    · rw [(m.keeps_request (hal.lt i (.queue hi))).1]
      exact h.queue hi
    · have ht : c.run.target = some (i, q) := by rw [hrun]; rfl
      rw [(m.keeps_request (hal.lt i (.run (Controller.RunPc.item_of_target ht)))).1]
      exact h.target ht
  · intro i q hi
    rcases m.target hi with hi | ⟨hrun, hb⟩
    · rw [(m.keeps_request (hal.lt i (.run (Controller.RunPc.item_of_target hi)))).1]
      exact h.target hi
    · have hitem : c.run.item = some i := by rw [hrun]; rfl
      rw [(m.keeps_request (hal.lt i (.run hitem))).1]
      have hanswer := hans.queue hb
      rw [hitem] at hanswer
      exact Topology.managedQueue_ok_iff.mp hanswer.symm

omit [DecidableEq Tid] in
theorem Homes.mono {t' : Topology} {c : Controller.State Tid} (h : Homes t c)
    (ht : ∀ k q, t.HasQueue k q → t'.HasQueue k q) : Homes t' c :=
  ⟨fun hi => ht _ _ (h.queue hi), fun hi => ht _ _ (h.target hi)⟩

end InferenceScheduler.FlowControl
