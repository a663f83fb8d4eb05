/-
What the goroutines of the registry hold, read off their program counters,
and the first invariant over it: every lease object a map, a call or the
collector refers to exists, and was created for the key it is used under.
-/
import InferenceScheduler.Registry.Registry

namespace InferenceScheduler.Registry

/-! ## Views of a program counter -/

/-- The object the loop is at work on. -/
def PinPc.ref : PinPc → Option Nat
  | .load | .loadOrStore => none
  | .tryPin v _ | .recheck v _ | .backOff v => some v

/-- The object the loop has a lease on. -/
def PinPc.held : PinPc → Option Nat
  | .load | .loadOrStore | .tryPin _ _ => none
  | .recheck v _ | .backOff v => some v

/-- The object this loop has created and not given up. -/
def PinPc.made : PinPc → Option Nat
  | .tryPin v true | .recheck v true => some v
  | _ => none

namespace CallPc

/-- The locals of a call that has pinned its flow. -/
def conn : CallPc → Option Conn
  | .idle | .pinFlow _ _ | .returned _ => none
  | .pinBand c _ | .arm c | .enter c | .lookupBand c | .ensureBand c | .syncFlow c | .check c | .drop c _
  | .loadBand c _ | .unpinBand c _ _ | .callback c | .release c _ => some c

/-- The flow state a call refers to, with the key it uses it under. -/
def flowRef : CallPc → Option (FlowKey × Nat)
  | .pinFlow key pc => pc.ref.map (key, ·)
  | pc => pc.conn.map fun c => (c.key, c.state)

/-- The band state a call refers to, with its priority. -/
def bandRef : CallPc → Option (Int × Nat)
  | .pinBand c pc => pc.ref.map (c.key.priority, ·)
  | .unpinBand c _ b => some (c.key.priority, b)
  | _ => none

end CallPc

namespace GcPc

/-- The removed flow states whose band leases are not released yet. -/
def pending : GcPc → List Nat
  | .flows (.range sc) | .flows (.visit sc _ _) | .flows (.delete sc _ _) => sc.found
  | .releaseFlows todo _ => todo
  | .unpinBand _ v todo _ => v :: todo
  | _ => []

/-- The flow state the collector is looking at, with its key. -/
def flowRef : GcPc → Option (FlowKey × Nat)
  | .flows (.visit _ k v) | .flows (.delete _ k v) => some (k, v)
  | _ => none

/-- The band states the collector has removed. -/
def removedBands : GcPc → List Nat
  | .bands (.range sc) | .bands (.visit sc _ _) | .bands (.delete sc _ _) => sc.found
  | _ => []

/-- The band state the collector is at, with its priority. -/
def bandRef (flowKey : Nat → FlowKey) : GcPc → Option (Int × Nat)
  | .bands (.visit _ p b) | .bands (.delete _ p b) => some (p, b)
  | .unpinBand b v _ _ => some ((flowKey v).priority, b)
  | _ => none

end GcPc

theorem GcPc.bandRef_congr {gc : GcPc} {key key' : Nat → FlowKey} (h : ∀ v ∈ gc.pending, key' v = key v) :
    gc.bandRef key' = gc.bandRef key := by
  cases gc with
  | unpinBand b v todo keys => simp only [GcPc.bandRef, h v (by simp [GcPc.pending])]
  | bands pc => cases pc <;> rfl
  | _ => rfl

/-! ## Every reference is to an object of its key -/

variable {Tid : Type}

structure Refs (s : State Tid) : Prop where
  flowTable : ∀ k v, s.flows.table k = some v → s.flows.Has k v
  bandTable : ∀ p b, s.bands.table p = some b → s.bands.Has p b
  callFlow : ∀ t k v, (s.calls t).flowRef = some (k, v) → s.flows.Has k v
  callBand : ∀ t p b, (s.calls t).bandRef = some (p, b) → s.bands.Has p b
  pending : ∀ v ∈ s.gc.pending, v < s.flows.next
  gcFlow : ∀ k v, s.gc.flowRef = some (k, v) → s.flows.Has k v
  removed : ∀ b ∈ s.gc.removedBands, b < s.bands.next
  gcBand : ∀ p b, s.gc.bandRef s.flows.key = some (p, b) → s.bands.Has p b

variable {s s' : State Tid} {t : Tid}

theorem Refs.createFlow {key : FlowKey} (h : Refs s) : Refs { s with flows := s.flows.create key } where
  flowTable k v hv := by
    simp only [Leases.create_table, Function.update_apply] at hv
    split at hv
    · rename_i e
      simp only [Option.some.injEq] at hv
      subst e hv
      exact Leases.has_next
    · exact (h.flowTable k v hv).create
  bandTable := h.bandTable
  callFlow u k v hv := (h.callFlow u k v hv).create
  callBand := h.callBand
  pending v hv := by
    have := h.pending v hv
    simp only [Leases.create_next]; omega
  gcFlow k v hv := (h.gcFlow k v hv).create
  removed := h.removed
  gcBand p b hb := by
    rw [GcPc.bandRef_congr fun v hv => Leases.create_key_of_lt (h.pending v hv)] at hb
    exact h.gcBand p b hb

variable {p : Int}

theorem Refs.createBand (h : Refs s) : Refs { s with bands := s.bands.create p } where
  flowTable := h.flowTable
  bandTable q b hb := by
    simp only [Leases.create_table, Function.update_apply] at hb
    split at hb
    · rename_i e
      simp only [Option.some.injEq] at hb
      subst e hb
      exact Leases.has_next
    · exact (h.bandTable q b hb).create
  callFlow := h.callFlow
  callBand u q b hb := (h.callBand u q b hb).create
  pending := h.pending
  gcFlow := h.gcFlow
  removed b hb := by
    have := h.removed b hb
    simp only [Leases.create_next]; omega
  gcBand q b hb := (h.gcBand q b hb).create

theorem Refs.eraseFlow {key : FlowKey} (h : Refs s) : Refs { s with flows := s.flows.erase key } :=
  { h with
    flowTable := fun k v hv => by
      simp only [Leases.erase_table, Function.update_apply] at hv
      split at hv
      · cases hv
      · exact h.flowTable k v hv }

theorem Refs.eraseBand (h : Refs s) : Refs { s with bands := s.bands.erase p } :=
  { h with
    bandTable := fun q b hb => by
      simp only [Leases.erase_table, Function.update_apply] at hb
      split at hb
      · cases hb
      · exact h.bandTable q b hb }

theorem Refs.setFlow {v : Nat} {ls : LeasedState} (h : Refs s) : Refs { s with flows := s.flows.setObj v ls } :=
  { h with }

theorem Refs.setBand {b : Nat} {ls : LeasedState} (h : Refs s) : Refs { s with bands := s.bands.setObj b ls } :=
  { h with }

theorem Refs.setInit {init : Nat → Init} (h : Refs s) : Refs { s with init } := { h with }

theorem Refs.setTopo {topo : Topology} (h : Refs s) : Refs { s with topo } := { h with }

theorem Refs.setGc {gc : GcPc} (h : Refs s) (hp : ∀ v ∈ gc.pending, v < s.flows.next)
    (hf : ∀ k v, gc.flowRef = some (k, v) → s.flows.Has k v)
    (hr : ∀ b ∈ gc.removedBands, b < s.bands.next)
    (hb : ∀ p b, gc.bandRef s.flows.key = some (p, b) → s.bands.Has p b) : Refs { s with gc } :=
  { h with pending := hp, gcFlow := hf, removed := hr, gcBand := hb }

variable [DecidableEq Tid] {pc : CallPc}

theorem Refs.goto (h : Refs s) (hf : ∀ k v, pc.flowRef = some (k, v) → s.flows.Has k v)
    (hb : ∀ p b, pc.bandRef = some (p, b) → s.bands.Has p b) : Refs (s.goto t pc) :=
  { h with
    callFlow := (Function.forall_update_iff s.calls
      (fun _ pc => ∀ k v, pc.flowRef = some (k, v) → s.flows.Has k v)).mpr ⟨hf, fun u _ => h.callFlow u⟩
    callBand := (Function.forall_update_iff s.calls
      (fun _ pc => ∀ p b, pc.bandRef = some (p, b) → s.bands.Has p b)).mpr ⟨hb, fun u _ => h.callBand u⟩ }

theorem Refs.keep {pc' : CallPc} (h : Refs s) (hpc : s.calls t = pc)
    (hf : pc'.flowRef = none ∨ pc'.flowRef = pc.flowRef) (hb : pc'.bandRef = none ∨ pc'.bandRef = pc.bandRef) :
    Refs (s.goto t pc') := by
  refine h.goto (fun k v e => ?_) fun p b e => ?_
  · rcases hf with hf | hf <;> rw [hf] at e
    · cases e
    · exact h.callFlow t k v (hpc ▸ e)
  · rcases hb with hb | hb <;> rw [hb] at e
    · cases e
    · exact h.callBand t p b (hpc ▸ e)

theorem Refs.keepBand {pc' : CallPc} {b : Nat} (h : Refs s) (hpc : s.calls t = pc)
    (hf : pc'.flowRef = pc.flowRef) (hb : pc'.bandRef = some (p, b)) (hp : s.bands.Has p b) :
    Refs (s.goto t pc') := by
  refine h.goto (fun k v e => h.callFlow t k v (hpc ▸ hf ▸ e)) fun q c e => ?_
  rw [hb, Option.some.injEq, Prod.mk.injEq] at e
  exact e.1 ▸ e.2 ▸ hp

variable {made : Bool} {now : Time}

theorem CallMoves.refs (h : Refs s) (m : CallMoves s t now made s') : Refs s' := by
  cases m with
  | flowFound hpc _ hv =>
    refine h.goto (fun k v e => ?_) nofun
    cases e
    exact h.flowTable _ _ hv
  | flowCreate hpc _ =>
    refine h.createFlow.goto (fun k v e => ?_) nofun
    cases e
    exact Leases.has_next
  | bandFound hpc _ hv => exact h.keepBand hpc rfl rfl (h.bandTable _ _ hv)
  | bandCreate hpc _ => exact h.createBand.keepBand hpc rfl rfl Leases.has_next
  | loadBand hpc hv => exact h.keepBand hpc rfl rfl (h.bandTable _ _ hv)
  | @ensureBand c topo bands hpc _ _ hbands =>
    have hs : Refs { s with bands } := by
      rw [hbands]
      split
      · exact h
      · exact h.createBand
    exact hs.setTopo.keep hpc (.inr rfl) (.inl rfl)
  | flowPin hpc _ => exact h.setFlow.keep hpc (.inr rfl) (.inl rfl)
  | flowBackOff hpc | release hpc => exact h.setFlow.keep hpc (.inl rfl) (.inl rfl)
  | bandPin hpc _ => exact h.setBand.keep hpc (.inr rfl) (.inr rfl)
  | bandBackOff hpc | unpinBand hpc => exact h.setBand.keep hpc (.inr rfl) (.inl rfl)
  | dropNew hpc _ | dropOld hpc _ => exact h.eraseFlow.keep hpc (.inr rfl) (.inl rfl)
  | enterFirst hpc _ | syncFail hpc _ => exact h.setInit.keep hpc (.inr rfl) (.inl rfl)
  | @syncOk c band topo hpc _ _ => 
    have hs : Refs { s with topo } := h.setTopo
    exact hs.setInit.keep hpc (.inr rfl) (.inl rfl)
  | crash => exact { h with }
  | bandThere hpc hc =>
    subst hpc
    rcases hc with hc | hc <;> exact h.keep hc (.inr rfl) (.inl rfl)
  | flowMissing hpc | flowRefused hpc => exact h.keep hpc (.inl rfl) (.inl rfl)
  | bandStale hpc => exact h.keep hpc (.inr rfl) (.inr rfl)
  | flowNew hpc | flowOld hpc | flowStale hpc | bandMissing hpc | bandRefused hpc | bandKept hpc
  | arm hpc | enterDone hpc | bandAbsent hpc | checkOk hpc | checkFail hpc | noBand hpc =>
    exact h.keep hpc (.inr rfl) (.inl rfl)

variable {a : Act Tid}

omit [DecidableEq Tid] in
theorem GcMoves.refs (h : Refs s) (m : GcMoves s a s') : Refs s' := by
  have hp := h.pending
  have hf := h.gcFlow
  have hr := h.removed
  have hb := h.gcBand
  cases m with
  | visitFlow hpc hv =>
    refine h.setGc (by simpa [hpc, GcPc.pending] using hp) (fun k v e => ?_) (by simp [GcPc.removedBands])
      (by simp [GcPc.bandRef])
    cases e
    exact h.flowTable _ _ hv
  | deleteFlow hpc hv =>
    refine h.eraseFlow.setGc ?_ (by simp [GcPc.flowRef]) (by simp [GcPc.removedBands]) (by simp [GcPc.bandRef])
    intro v hm
    simp only [GcPc.pending, List.mem_append, List.mem_singleton] at hm
    rcases hm with hm | rfl
    · exact hp v (by simpa [hpc, GcPc.pending] using hm)
    · exact (h.flowTable _ _ hv).1
  | loadBand hpc hv =>
    refine h.setGc (by simpa [hpc, GcPc.pending] using hp) (by simp [GcPc.flowRef]) (by simp [GcPc.removedBands])
      fun p b e => ?_
    cases e
    exact h.bandTable _ _ hv
  | visitBand hpc hv =>
    refine h.setGc (by simp [GcPc.pending]) (by simp [GcPc.flowRef])
      (by simpa [hpc, GcPc.removedBands] using hr) fun p b e => ?_
    cases e
    exact h.bandTable _ _ hv
  | deleteBand hpc hv =>
    refine h.eraseBand.setGc (by simp [GcPc.pending]) (by simp [GcPc.flowRef]) ?_ (by simp [GcPc.bandRef])
    intro b hm
    simp only [GcPc.removedBands, List.mem_append, List.mem_singleton] at hm
    rcases hm with hm | rfl
    · exact hr b (by simpa [hpc, GcPc.removedBands] using hm)
    · exact (h.bandTable _ _ hv).1
  | keepFlow hpc | markFlow hpc =>
    exact h.setFlow.setGc (by simpa [hpc, GcPc.pending] using hp) (by simp_all [GcPc.flowRef])
      (by simp [GcPc.removedBands]) (by simp [GcPc.bandRef])
  | keepBand hpc | markBand hpc =>
    exact h.setBand.setGc (by simp [GcPc.pending]) (by simp [GcPc.flowRef])
      (by simpa [hpc, GcPc.removedBands] using hr) (by simp_all [GcPc.bandRef])
  | unpinBand hpc =>
    exact h.setBand.setGc (by simp_all [GcPc.pending]) (by simp [GcPc.flowRef])
      (by simp [GcPc.removedBands]) (by simp [GcPc.bandRef])
  | cleanFlows | cleanBands =>
    exact { h with
      pending := by simp [GcPc.pending]
      gcFlow := by simp [GcPc.flowRef]
      removed := by simp [GcPc.removedBands]
      gcBand := by simp [GcPc.bandRef] }
  | _ hpc =>
    exact h.setGc (by simp_all [GcPc.pending]) (by simp [GcPc.flowRef])
      (by simp_all [GcPc.removedBands]) (by simp [GcPc.bandRef])

theorem Moves.refs (h : Refs s) (m : Moves s a s') : Refs s' := by
  cases m with
  | start _ | refuse _ => exact h.goto (nofun) nofun
  | finish hpc => exact h.keep hpc (.inr rfl) (.inl rfl)
  | call m | gc m => exact m.refs h
  | stats => exact { h with }

omit [DecidableEq Tid] in
theorem refs_new (cfg : InitialConfig) : Refs (State.new cfg : State Tid) := by
  constructor <;> simp [State.new, Leases.empty, CallPc.flowRef, CallPc.conn, CallPc.bandRef, GcPc.pending,
    GcPc.flowRef, GcPc.removedBands, GcPc.bandRef]

/-! ## The flow of a call -/

/-- The key a call was given, until it returns. -/
def CallPc.flowKey : CallPc → Option FlowKey
  | .pinFlow key _ => some key
  | .pinBand c _ | .arm c | .enter c | .lookupBand c | .ensureBand c | .syncFlow c | .check c | .drop c _
  | .loadBand c _ | .unpinBand c _ _ | .callback c | .release c _ => some c.key
  | .idle | .returned _ => none

theorem CallMoves.flowKey (m : CallMoves s t now made s') :
    (s'.calls t).flowKey = (s.calls t).flowKey ∨ (s'.calls t).flowKey = none := by
  cases m with
  | release => right; simp [CallPc.flowKey]
  | crash => exact .inl rfl
  | bandThere hpc h =>
    left
    rcases h with rfl | rfl <;> simp [hpc, CallPc.flowKey]
  | _ hpc => left; simp [hpc, CallPc.flowKey]

theorem CallMoves.calls_other {u : Tid} (m : CallMoves s t now made s') (hu : u ≠ t) : s'.calls u = s.calls u := by
  cases m <;> simp [hu]

theorem Moves.flowKey (m : Moves s a s') (ha : ∀ key, a ≠ .start t key) :
    (s'.calls t).flowKey = (s.calls t).flowKey ∨ (s'.calls t).flowKey = none := by
  cases m with
  | @start u key | @refuse u key =>
    have hu : t ≠ u := fun h => ha key (h ▸ rfl)
    left
    simp [hu]
  | @finish u c r hpc =>
    left
    by_cases hu : t = u
    · subst hu
      simp [hpc, CallPc.flowKey]
    · simp [hu]
  | @call u _ _ _ m =>
    by_cases hu : t = u
    · subst hu
      exact m.flowKey
    · exact .inl (by rw [m.calls_other hu])
  | gc m => cases m <;> exact .inl rfl
  | stats => exact .inl rfl

theorem Moves.callback {c : Conn} (m : Moves s a s') (ht : s.calls t = .callback c)
    (ha : ∀ r, a ≠ .finish t r) : s'.calls t = .callback c := by
  cases m with
  | @start u key hpc | @refuse u key hpc =>
    have hu : t ≠ u := by
      rintro rfl
      rw [ht] at hpc
      simp at hpc
    simp [hu, ht]
  | @finish u c r =>
    have hu : t ≠ u := fun h => ha r (h ▸ rfl)
    simp [hu, ht]
  | @call u _ _ _ m =>
    by_cases hu : t = u
    · subst hu
      cases m with
      | bandThere hpc h => rw [ht] at hpc; rcases h with rfl | rfl <;> cases hpc
      | crash hpc h => rw [ht] at hpc; rcases h with ⟨rfl, -⟩ | ⟨rfl, -⟩ <;> cases hpc
      | _ hpc => rw [ht] at hpc; cases hpc
    · rw [m.calls_other hu, ht]
  | gc m => cases m <;> exact ht
  | stats => exact ht

end InferenceScheduler.Registry
