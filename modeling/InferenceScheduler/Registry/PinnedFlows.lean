/-
`WithConnection` promises that the flow's resources are pinned and valid for the
duration of its callback. The flow's lease keeps its state in the map, and the
state's band lease keeps the band; but a second call may provision the flow and
be in its callback before the creator has taken the band lease
(`callback_without_band`).

`KeepsPinned` excludes the two steps that use the gap: the flow collector
marking a state in it, and the band clean-up removing the band of a flow in it.
-/
import InferenceScheduler.Registry.BandLeases

namespace InferenceScheduler.Registry

variable {Tid : Type}

/-- The key a step provisions, with whether its queue can be built. -/
def State.provisioning (s : State Tid) : Act Tid → Option (FlowKey × Bool)
  | .call t _ made =>
    match s.calls t with
    | .syncFlow c => some (c.key, made)
    | _ => none
  | _ => none

/-- The provisioning step of a flow succeeds. -/
def Provisions (s : State Tid) (a : Act Tid) : Prop :=
  ∀ x ∈ s.provisioning a, (s.topo.buildFlowComponents x.1 x.2).isOk = true

/-- The priorities whose resources a step cleans up. -/
def State.bandCleanup (s : State Tid) : Act Tid → List Int
  | .gcStep _ =>
    match s.gc with
    | .cleanBands ps => ps
    | _ => []
  | _ => []

def Init.provisioned : Init → Bool
  | .done none => true
  | _ => false

/-- A band is not removed while a provisioned flow of it waits for its
creator to take the band lease. -/
def KeepsGapBands (s : State Tid) (a : Act Tid) : Prop :=
  ∀ p ∈ s.bandCleanup a, s.bands.table p = none → ∀ t, ∀ x ∈ (s.calls t).maker, x.2 = false →
    (s.init x.1).provisioned = true → (s.flows.key x.1).priority ≠ p

def KeepsPinned (s : State Tid) (a : Act Tid) : Prop := Provisions s a ∧ MarksCharged s a ∧ KeepsGapBands s a

instance (s : State Tid) (a : Act Tid) : Decidable (Provisions s a) :=
  inferInstanceAs (Decidable (∀ x ∈ s.provisioning a, _))

instance [Fintype Tid] (s : State Tid) (a : Act Tid) : Decidable (KeepsGapBands s a) :=
  inferInstanceAs (Decidable (∀ p ∈ s.bandCleanup a, _ → ∀ t, ∀ x ∈ (s.calls t).maker, _))

instance [Fintype Tid] (s : State Tid) (a : Act Tid) : Decidable (KeepsPinned s a) :=
  inferInstanceAs (Decidable (_ ∧ _ ∧ _))

/-! ## Nothing fails -/

/-- No flow state has failed, no call is on the failure path, and the
collector looks at the map's current state. -/
structure Unfailed (s : State Tid) : Prop where
  init : ∀ v e, s.init v ≠ .done (some e)
  calls : ∀ t v e, (s.calls t).settled ≠ some (v, some e)
  gc : ∀ k v, s.gc.flowRef = some (k, v) → s.flows.table k = some v

variable {s s' : State Tid} {t : Tid}

theorem Unfailed.removesOwn (h : Unfailed s) (a : Act Tid) : RemovesOwn s a := by
  constructor
  · intro d hd w hw
    cases a with
    | call t now made =>
      cases hpc : s.calls t with
      | drop c e => exact absurd (by rw [hpc]; rfl) (h.calls t c.state e)
      | _ => simp [State.flowDrop, hpc] at hd
    | _ => simp [State.flowDrop] at hd
  · intro d hd w hw
    cases a with
    | gcStep now =>
      cases hpc : s.gc with
      | flows pc =>
        cases pc with
        | delete sc k v =>
          simp only [State.flowDelete, hpc, Option.mem_def] at hd
          cases hd
          have := h.gc k v (by rw [hpc]; rfl)
          simp_all
        | _ => simp [State.flowDelete, hpc] at hd
      | _ => simp [State.flowDelete, hpc] at hd
    | _ => simp [State.flowDelete] at hd

variable [DecidableEq Tid]

theorem Unfailed.goto {pc : CallPc} (h : Unfailed s) (hpc : ∀ v e, pc.settled ≠ some (v, some e)) :
    Unfailed (s.goto t pc) :=
  { h with
    calls := (Function.forall_update_iff s.calls fun _ pc => ∀ v e, pc.settled ≠ some (v, some e)).mpr
      ⟨hpc, fun u _ => h.calls u⟩ }

variable {made : Bool} {now : Time}

theorem CallMoves.unfailed (h : Unfailed s) (hok : Provisions s (.call t now made))
    (m : CallMoves s t now made s') : Unfailed s' := by
  have ht := h.calls t
  cases m with
  | @flowCreate key hpc hk =>
    refine Unfailed.goto ⟨h.init, h.calls, fun k v hv => ?_⟩ (by simp [CallPc.settled])
    have hkv := h.gc k v hv
    have hne : k ≠ key := fun e => by rw [e, hk] at hkv; cases hkv
    simpa [hne] using hkv
  | @enterFirst c hpc hi | @syncOk c band topo hpc hb hs =>
    refine Unfailed.goto ⟨fun v e he => ?_, h.calls, h.gc⟩ (by simp [CallPc.settled])
    by_cases hv : v = c.state
    · simp [hv] at he
    · exact h.init v e (by simpa [hv] using he)
  | @syncFail c e hpc hb =>
    have := hok (c.key, made) (by simp [State.provisioning, hpc])
    rw [hb] at this
    cases this
  | checkFail hpc hi => exact absurd hi (h.init _ _)
  | dropNew hpc | dropOld hpc | loadBand hpc | noBand hpc | unpinBand hpc =>
    rw [hpc] at ht
    exact absurd rfl (ht _ _)
  | crash => exact ⟨h.init, h.calls, h.gc⟩
  | _ => exact Unfailed.goto ⟨h.init, h.calls, h.gc⟩ (by simp [CallPc.settled])

variable {a : Act Tid}

omit [DecidableEq Tid] in
theorem GcMoves.unfailed (h : Unfailed s) (m : GcMoves s a s') : Unfailed s' := by
  have hg := h.gc
  cases m with
  | visitFlow hpc hv =>
    refine ⟨h.init, h.calls, fun k v e => ?_⟩
    cases e
    exact hv
  | markFlow hpc =>
    refine ⟨h.init, h.calls, fun k v e => hg k v ?_⟩
    rw [hpc]
    exact e
  | _ => exact ⟨h.init, h.calls, nofun⟩

theorem Moves.unfailed (h : Unfailed s) (hok : Provisions s a) (m : Moves s a s') : Unfailed s' := by
  cases m with
  | start | refuse | finish => exact h.goto (by simp [CallPc.settled])
  | call m => exact m.unfailed h hok
  | gc m => exact m.unfailed h
  | stats => exact { h with }

/-! ## Every provisioned flow in the map has its queue -/

/-- A provisioned flow state in the map has its queue on the shard. -/
def Queued (s : State Tid) : Prop :=
  ∀ v, s.flows.Live v → s.init v = .done none → ∃ q, s.topo.HasQueue (s.flows.key v) q

omit [DecidableEq Tid] in
theorem Queued.frame (h : Queued s) (htopo : s'.topo = s.topo) (hkey : s'.flows.key = s.flows.key)
    (hlive : ∀ v, s'.flows.Live v → s.flows.Live v)
    (hinit : ∀ v, s'.init v = .done none → s.init v = .done none) : Queued s' := by
  intro v hl hi
  rw [htopo, hkey]
  exact h v (hlive v hl) (hinit v hi)

variable {q : Nat}

theorem CallMoves.hasQueue {k : FlowKey} (hs : Sound s)
    (m : CallMoves s t now made s') (hq : s.topo.HasQueue k q) : s'.topo.HasQueue k q := by
  cases m with
  | ensureBand _ _ he _ => exact hq.ensurePriorityBand hs.agrees he
  | syncOk _ _ hsync => exact hq.synchronizeFlow hsync
  | _ => exact hq

theorem CallMoves.queued (hr : Refs s) (ho : Once s) (hs : Sound s) (h : Queued s)
    (m : CallMoves s t now made s') : Queued s' := by
  cases m with
  | @flowCreate key hpc hk =>
    intro v hl hi
    rcases (Leases.live_create hk).mp hl with rfl | hl
    · rw [State.goto_init, ho.fresh _ (le_refl _)] at hi
      cases hi
    · have hkey := Leases.create_key_of_lt (k := key) (Leases.has_of_live hr.flowTable hl)
      simp only [State.goto_flows, hkey]
      exact h v hl hi
  | @enterFirst c hpc _ | @syncFail c e hpc _ =>
    refine h.frame rfl rfl (fun v hl => hl) fun v hi => ?_
    simp only [State.goto_init, Function.update_apply] at hi
    split at hi
    · cases hi
    · exact hi
  | @syncOk c band topo hpc hb hsync =>
    have hc : (s.topo.config.priorityBands c.key.priority).isSome := by
      cases hc : s.topo.config.priorityBands c.key.priority <;> simp_all [Topology.buildFlowComponents]
    obtain ⟨topo', ht, -, -, q, hq⟩ := hs.agrees.synchronizeFlow hc
    rw [hsync] at ht
    cases ht
    have hkey := hr.callFlow t c.key c.state (by rw [hpc]; rfl)
    intro v hl hi
    simp only [State.goto_flows, State.goto_topo]
    by_cases hv : v = c.state
    · rw [hv, hkey.2]
      exact ⟨q, hq⟩
    · obtain ⟨q', hq'⟩ := h v hl (by simpa [hv] using hi)
      exact ⟨q', hq'.synchronizeFlow hsync⟩
  | ensureBand hpc _ he _ =>
    intro v hl hi
    obtain ⟨q, hq⟩ := h v hl hi
    exact ⟨q, hq.ensurePriorityBand hs.agrees he⟩
  | dropNew hpc | dropOld hpc =>
    exact h.frame rfl rfl (fun v hl => (Leases.live_erase.mp hl).1) fun v hi => hi
  | crash => exact h
  | _ => exact h.frame rfl rfl (fun v hl => hl) fun v hi => hi

variable {ch : Finset Nat}

omit [DecidableEq Tid] in
theorem GcMoves.hasQueue [Fintype Tid] {v : Nat} (hl : Ledger s ch)
    (hok : KeepsGapBands s a) (hv : s.flows.Live v) (hi : s.init v = .done none)
    (hq : s.topo.HasQueue (s.flows.key v) q) (m : GcMoves s a s') : s'.topo.HasQueue (s.flows.key v) q := by
  cases m with
  | cleanFlows =>
    exact hq.cleanupFlowResources _ (by rw [show s.flows.table (s.flows.key v) = some v from hv]; rfl) _
  | @cleanBands ps now hpc =>
    refine hq.cleanupPriorityBandResources _ fun hm => ?_
    -- a charged flow's band state is there; the others are in their creator's gap
    rcases hl.charged.live v hv with hch | ⟨t, ht⟩
    · exact hl.bandLeases.charged v hch
    · by_contra hnone
      exact hok _ (by simpa [State.bandCleanup, hpc] using hm) (by simpa using hnone) t (v, false) ht rfl
        (by rw [hi]; rfl) rfl
  | _ => exact hq

omit [DecidableEq Tid] in
theorem GcMoves.queued [Fintype Tid] (hl : Ledger s ch) (h : Queued s)
    (hok : KeepsGapBands s a) (m : GcMoves s a s') : Queued s' := by
  have hkeep : ∀ v, s.flows.Live v → s.init v = .done none → ∃ q, s'.topo.HasQueue (s.flows.key v) q :=
    fun v hv hi => (h v hv hi).imp fun _ hq => m.hasQueue hl hok hv hi hq
  cases m with
  | deleteFlow hpc => exact fun v hv hi => hkeep v (Leases.live_erase.mp hv).1 hi
  | _ => exact hkeep

theorem keepsLeases_reaches {cfg : InitialConfig} (h : Reaches step KeepsPinned (State.new cfg) s) :
    Reaches step KeepsLeases (State.new cfg) s := by
  refine h.mono Unfailed (fun s hs => ?_) fun s a hu hok => ⟨hok.2.1, hu.removesOwn a⟩
  refine hs.invariant Unfailed ⟨?_, ?_, ?_⟩ fun _ _ _ hi hok hs => (step_moves hs).unfailed hi hok.1
  · exact nofun
  · exact nofun
  · exact nofun

variable [Fintype Tid]

theorem Moves.queued (hl : Ledger s ch) (hs : Sound s) (h : Queued s)
    (hok : KeepsGapBands s a) (m : Moves s a s') : Queued s' := by
  cases m with
  | start | refuse | finish => exact h.frame rfl rfl (fun v hl => hl) fun v hi => hi
  | call m => exact m.queued hl.refs hl.once hs h
  | gc m => exact m.queued hl h hok
  | stats ht =>
    intro v hv hi
    obtain ⟨q, hq⟩ := h v hv hi
    exact ⟨q, (Topology.hasQueue_propagateStatsDelta ht).mpr hq⟩

/-! ## Flows with a state that is not marked -/

/-- The flow has a provisioned state that is not marked for deletion. -/
def Held (s : State Tid) (key : FlowKey) : Prop :=
  ∃ v, s.flows.Has key v ∧ s.init v = .done none ∧ (s.flows.obj v).markedForDeletion = false

omit [DecidableEq Tid] in
theorem Ledger.held {c : Conn} (hl : Ledger s ch) (ht : s.calls t = .callback c) : Held s c.key :=
  ⟨c.state, hl.refs.callFlow t c.key c.state (by rw [ht]; rfl), hl.once.settled t c.state none (by rw [ht]; rfl),
    hl.flowLeases.not_marked (t := t) (by rw [ht]; rfl)⟩

variable {key : FlowKey}

omit [Fintype Tid] in
theorem CallMoves.held (ho : Once s) (h : Held s key) (m : CallMoves s t now made s') : Held s' key := by
  obtain ⟨v, hv, hi, hm⟩ := h
  have hset : ∀ w ls, ls.markedForDeletion = (s.flows.obj w).markedForDeletion →
      ((s.flows.setObj w ls).obj v).markedForDeletion = false := fun w ls hls => by
    simp only [Leases.setObj_obj, Function.update_apply]
    split
    · rename_i e
      rw [hls, ← e, hm]
    · exact hm
  have hinit : ∀ w x, (∀ e, s.init w ≠ .done e) → Function.update s.init w x v = .done none := fun w x hw => by
    have hne : v ≠ w := fun e => hw none (e ▸ hi)
    rw [Function.update_of_ne hne, hi]
  cases m with
  | flowCreate => exact ⟨v, hv.create, hi, by simp [hv.1.ne, hm]⟩
  | flowPin | flowBackOff | release => exact ⟨v, hv, hi, hset _ _ rfl⟩
  | enterFirst hpc hf => exact ⟨v, hv, hinit _ _ (fun e he => by rw [hf] at he; cases he), hm⟩
  | syncFail hpc | syncOk hpc =>
    have hrunning := ho.body t _ (by rw [hpc]; rfl)
    exact ⟨v, hv, hinit _ _ (fun e he => by rw [hrunning] at he; cases he), hm⟩
  | _ => exact ⟨v, hv, hi, hm⟩

omit [DecidableEq Tid] [Fintype Tid] in
theorem GcMoves.held (h : Held s key) (m : GcMoves s a s')
    (hcheck : ∀ c ∈ s.flowCheck a, (s.flows.obj c.1).IdleFor s.topo.config.flowGCTimeout c.2 → s.flows.key c.1 ≠ key) :
    Held s' key := by
  obtain ⟨v, hv, hi, hm⟩ := h
  cases m with
  | keepFlow hpc hc =>
    refine ⟨v, hv, hi, ?_⟩
    simp only [Leases.setObj_obj, Function.update_apply]
    split
    · rename_i e
      rw [LeasedState.check_marked_of_false hc, ← e, hm]
    · exact hm
  | @markFlow sc k w _ hpc hc =>
    have hne : v ≠ w := by
      rintro rfl
      exact hcheck (v, sc.now) (by simp [State.flowCheck, hpc]) (LeasedState.check_iff.mp hc) hv.2
    exact ⟨v, hv, hi, by simp [hne, hm]⟩
  | _ => exact ⟨v, hv, hi, hm⟩

/-- **A flow loses its last unmarked state only to the collector's idle check.** -/
theorem Moves.held (hl : Ledger s ch) (h : Held s key) (m : Moves s a s')
    (hcheck : ∀ c ∈ s.flowCheck a, (s.flows.obj c.1).IdleFor s.topo.config.flowGCTimeout c.2 → s.flows.key c.1 ≠ key) :
    Held s' key := by
  cases m with
  | start | refuse | finish | stats => exact h
  | call m => exact m.held hl.once h
  | gc m => exact m.held h hcheck

theorem Moves.hasQueue_held (hl : Ledger s ch) (hs : Sound s) (hok : KeepsGapBands s a) (h : Held s key)
    (hq : s.topo.HasQueue key q) (m : Moves s a s') : s'.topo.HasQueue key q := by
  obtain ⟨v, ⟨hlt, rfl⟩, hi, hm⟩ := h
  cases m with
  | start | refuse | finish => exact hq
  | call m => exact m.hasQueue hs hq
  | gc m => exact m.hasQueue hl hok (hl.live_of_unmarked hlt hi hm) hi hq
  | stats h => exact (Topology.hasQueue_propagateStatsDelta h).mpr hq

theorem queued_reaches {cfg : InitialConfig} {ok : State Tid → Act Tid → Prop}
    (hok : ∀ s a, ok s a → KeepsGapBands s a) (h : Reaches step ok (State.new cfg) s)
    (hl : ∀ s, Reaches step ok (State.new cfg) s → ∃ ch, Ledger s ch) : Queued s := by
  induction h with
  | init => exact nofun
  | next hr hs hstep ih =>
    obtain ⟨ch, hl⟩ := hl _ hr
    exact (step_moves hstep).queued hl (sound_reaches hr) ih (hok _ _ hs)

/-- **Pinned flows stay usable**: in every run in which provisioning succeeds,
no flow state is marked before its creator has taken the band lease and no
band is removed while a provisioned flow of it waits for that lease, a
running callback finds its band and its queue. -/
theorem pinned_flow_usable {cfg : InitialConfig} {c : Conn}
    (h : Reaches step KeepsPinned (State.new cfg) s) (ht : s.calls t = .callback c) :
    (s.topo.shard.priorityBands c.key.priority).isSome ∧
      ∃ q, s.topo.shard.managedQueue c.key = .ok q ∧ s.topo.queueKey q = c.key := by
  obtain ⟨ch, hl⟩ := ledger_reaches (keepsLeases_reaches h)
  have hi : s.init c.state = .done none := hl.once.settled t c.state none (by rw [ht]; rfl)
  have hlive := hl.live_of_pinned (t := t) (by rw [ht]; rfl) hi
  have hkey := hl.refs.callFlow t c.key c.state (by rw [ht]; rfl)
  have hqueued : Queued s := queued_reaches (fun _ _ hok => hok.2.2) h fun _ h => ledger_reaches (keepsLeases_reaches h)
  obtain ⟨q, band, hband, hq⟩ := hqueued c.state hlive hi
  rw [hkey.2] at hband hq
  exact ⟨by simp [hband], q, Topology.managedQueue_ok_iff.mpr ⟨band, hband, hq⟩,
    ((sound_reaches h).agrees.queues _ band _ q hband hq).2⟩

/-- The callback of a call. -/
def CallPc.inCallback (key : FlowKey) : CallPc → Bool
  | .callback c => c.key = key
  | _ => false

theorem CallPc.inCallback_iff {key : FlowKey} {pc : CallPc} (h : pc.inCallback key = true) :
    ∃ c, pc = .callback c ∧ c.key = key := by
  cases pc <;> simp_all [inCallback]

/-- Two calls on one flow, the second in its callback after the first has
taken the band lease, and a collector's cycle. -/
theorem pinned_flow_usable_second_call : ∃ (s : State Bool) (c : Conn),
    Reaches step KeepsPinned (State.new smallConfig) s ∧ s.calls false = .callback c ∧ c.key = ⟨"f", 1⟩ ∧
      ∃ q, s.topo.shard.managedQueue c.key = .ok q ∧ s.topo.queueKey q = c.key := by
  obtain ⟨s, hs, hp⟩ := exists_of_runIf step KeepsPinned (State.new smallConfig)
    (.start true ⟨"f", 1⟩ :: List.replicate 8 (.call true 1 true) ++
      .start false ⟨"f", 1⟩ :: List.replicate 9 (.call false 1 true) ++
      [.gcBegin 9, .gcVisitFlow ⟨"f", 1⟩, .gcStep 9, .gcEndRange, .gcStep 9, .gcVisitBand 1, .gcStep 9, .gcEndRange])
    (fun s => (s.calls false).inCallback ⟨"f", 1⟩) (by decide +kernel)
  obtain ⟨c, hc, hk⟩ := CallPc.inCallback_iff hp
  exact ⟨s, c, hs, hc, hk, (pinned_flow_usable hs hc).2⟩

/-! ## A callback that loses its band -/

/-- The clock reading of a step. -/
def Act.reading {Tid : Type} : Act Tid → Option Time
  | .call _ now _ | .gcBegin now | .gcStep now => some now
  | _ => none

/-- The creator of a flow stalls before it takes the band lease; a second call is in
its callback; two collections remove the band. -/
def collectUnderCallback : List (Act Bool) :=
  .start true ⟨"f", 1⟩ :: List.replicate 4 (.call true 1 true) ++
  .start false ⟨"f", 1⟩ :: List.replicate 9 (.call false 1 true) ++
  [.gcBegin 1, .gcVisitFlow ⟨"f", 1⟩, .gcStep 1, .gcEndRange, .gcStep 1, .gcVisitBand 1, .gcStep 1, .gcEndRange,
    .gcBegin 3, .gcVisitFlow ⟨"f", 1⟩, .gcStep 3, .gcEndRange, .gcStep 3, .gcVisitBand 1, .gcStep 3, .gcStep 3,
    .gcEndRange, .gcStep 3]

/-- The lookup failed because the band is not there. -/
def bandNotFound : Except GoError Nat → Bool
  | .error e => e.is errPriorityBandNotFound
  | .ok _ => false

/-- **A callback without its band**: every provisioning step succeeds and the
clock never goes backwards, and `ManagedQueue` answers
`ErrPriorityBandNotFound` under a running callback. -/
theorem callback_without_band : ∃ (as : List (Act Bool)) (s : State Bool) (c : Conn),
    (as.filterMap Act.reading).Pairwise (· ≤ ·) ∧ runIf step Provisions (State.new smallConfig) as = some s ∧
      s.calls false = .callback c ∧ (s.topo.shard.priorityBands c.key.priority).isNone ∧
      bandNotFound (s.topo.shard.managedQueue c.key) = true := by
  have hrun : (runIf step Provisions (State.new smallConfig) collectUnderCallback).any (fun s =>
      (s.calls false).inCallback ⟨"f", 1⟩ && (s.topo.shard.priorityBands 1).isNone &&
        bandNotFound (s.topo.shard.managedQueue ⟨"f", 1⟩)) = true := by decide +kernel
  obtain ⟨s, hs, hp⟩ := (Option.any_eq_true ..).mp hrun
  simp only [Bool.and_eq_true] at hp
  obtain ⟨c, hc, hk⟩ := CallPc.inCallback_iff hp.1.1
  exact ⟨collectUnderCallback, s, c, by decide +kernel, hs, hc, by rw [hk]; exact hp.1.2, by rw [hk]; exact hp.2⟩

end InferenceScheduler.Registry
