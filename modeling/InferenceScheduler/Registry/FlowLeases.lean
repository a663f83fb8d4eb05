/-
Two invariants of every run of the registry. `FlowLeases`: a flow state's
`leaseCount` is the number of calls that hold a lease on it, and a marked
flow state has none. `Once`: at most one call is inside a flow state's
`sync.Once`, and a call past it acts on the state's own `initErr`.
-/
import InferenceScheduler.Lib.Count
import InferenceScheduler.Registry.Refs

namespace InferenceScheduler.Registry

open Function (update update_apply)

namespace CallPc

/-- The flow state a call holds a lease on. -/
def flowPin : CallPc → Option Nat
  | .pinFlow _ pc => pc.held
  | pc => pc.conn.map (·.state)

def holdsFlow (v : Nat) (pc : CallPc) : Bool := pc.flowPin = some v

/-- The flow state whose `sync.Once` body the call is running. -/
def initializing : CallPc → Option Nat
  | .lookupBand c | .ensureBand c | .syncFlow c => some c.state
  | _ => none

/-- The flow state whose `initErr` the call has read, with the answer. -/
def settled : CallPc → Option (Nat × Option GoError)
  | .callback c => some (c.state, none)
  | .drop c e | .loadBand c e | .unpinBand c e _ => some (c.state, some e)
  | _ => none

theorem flowRef_of_flowPin {pc : CallPc} {v : Nat} (h : pc.flowPin = some v) : ∃ k, pc.flowRef = some (k, v) := by
  cases pc with
  | pinFlow key pc => cases pc <;> simp_all [flowPin, flowRef, PinPc.held, PinPc.ref]
  | _ => simp_all [flowPin, flowRef, conn]

end CallPc

/-! ## Flow leases -/

section FlowLeases

variable {Tid : Type} [Fintype Tid] {s s' : State Tid} {t : Tid}

structure FlowLeases (s : State Tid) : Prop where
  leases : ∀ v, (s.flows.obj v).leaseCount = count (CallPc.holdsFlow v) s.calls
  marked : ∀ v, (s.flows.obj v).markedForDeletion = true → (s.flows.obj v).leaseCount = 0

theorem FlowLeases.nonneg (h : FlowLeases s) (v : Nat) : 0 ≤ (s.flows.obj v).leaseCount :=
  h.leases v ▸ count_nonneg

variable {v : Nat}

theorem FlowLeases.not_marked (h : FlowLeases s) (ht : (s.calls t).flowPin = some v) :
    (s.flows.obj v).markedForDeletion = false := by
  have hpos : 0 < count (CallPc.holdsFlow v) s.calls := count_pos (i := t) (by simp [CallPc.holdsFlow, ht])
  rw [← h.leases v] at hpos
  by_contra hm
  have := h.marked v (by simpa using hm)
  omega

variable {now : Time}

theorem FlowLeases.check {timeout : Int} (h : FlowLeases s) : FlowLeases { s with
      flows := s.flows.setObj v ((s.flows.obj v).checkAndMarkForDeletion timeout now).2 } := by
  constructor
  · intro w
    rw [← h.leases w]
    simp only [Leases.setObj_obj, update_apply]
    split
    · rename_i e; rw [LeasedState.check_leaseCount, e]
    · rfl
  · intro w hw
    simp only [Leases.setObj_obj, update_apply] at hw ⊢
    split at hw
    · rename_i e
      subst e
      simp only [if_true, LeasedState.check_leaseCount]
      cases hc : ((s.flows.obj w).checkAndMarkForDeletion timeout now).1 with
      | true => exact le_antisymm (LeasedState.check_of_true hc).1 (h.nonneg w)
      | false => exact h.marked w (by rwa [← LeasedState.check_marked_of_false hc])
    · rename_i e
      rw [if_neg e]
      exact h.marked w hw

theorem FlowLeases.create {key : FlowKey} (h : FlowLeases s) (hr : Refs s) :
    FlowLeases { s with flows := s.flows.create key } := by
  have h0 : count (CallPc.holdsFlow s.flows.next) s.calls = 0 := by
    rw [count_eq_zero]
    intro u
    simp only [CallPc.holdsFlow, decide_eq_false_iff_not]
    intro hu
    obtain ⟨k, hk⟩ := CallPc.flowRef_of_flowPin hu
    exact absurd (hr.callFlow u k _ hk).1 (by omega)
  constructor
  · intro w
    simp only [Leases.create_obj, update_apply]
    split
    · rename_i e; rw [e, h0]
    · exact h.leases w
  · intro w hw
    simp only [Leases.create_obj, update_apply] at hw ⊢
    split at hw
    · cases hw
    · rename_i e
      rw [if_neg e]
      exact h.marked w hw

variable [DecidableEq Tid] {pc pc' : CallPc}

theorem FlowLeases.goto (h : FlowLeases s) (hpc : s.calls t = pc)
    (hpin : pc'.flowPin = pc.flowPin) : FlowLeases (s.goto t pc') := by
  refine ⟨fun v => ?_, h.marked⟩
  rw [State.goto_calls, count_update_same (by rw [CallPc.holdsFlow, hpin, hpc]; rfl)]
  exact h.leases v

/-- A call pins or unpins `v`: what it holds afterwards is in the count. -/
theorem FlowLeases.repin {ls : LeasedState} (h : FlowLeases s) (hpc : s.calls t = pc)
    (hm : ls.markedForDeletion = false) (hother : ∀ w ≠ v, pc.flowPin ≠ some w ∧ pc'.flowPin ≠ some w)
    (hls : ls.leaseCount = (s.flows.obj v).leaseCount - (if pc.flowPin = some v then 1 else 0) +
      if pc'.flowPin = some v then 1 else 0) :
    FlowLeases ({ s with flows := s.flows.setObj v ls }.goto t pc') := by
  constructor
  · intro w
    rw [State.goto_calls, count_update, hpc]
    simp only [State.goto_flows, Leases.setObj_obj, update_apply, CallPc.holdsFlow, decide_eq_true_eq]
    by_cases hw : w = v
    · rw [if_pos hw, hls, hw, h.leases v]
    · simp [hw, hother w hw, h.leases w]
  · intro w hw
    simp only [State.goto_flows, Leases.setObj_obj, update_apply] at hw ⊢
    split at hw
    · simp [hm] at hw
    · rename_i e
      rw [if_neg e]
      exact h.marked w hw

theorem FlowLeases.pin (h : FlowLeases s) (hpc : s.calls t = pc)
    (hm : (s.flows.obj v).markedForDeletion = false) (hn : pc.flowPin = none) (hp : pc'.flowPin = some v) :
    FlowLeases ({ s with flows := s.flows.setObj v (s.flows.obj v).pinned }.goto t pc') :=
  h.repin hpc hm (fun w hw => by simp [hn, hp, hw.symm]) (by simp [hn, hp])

theorem FlowLeases.unpin (h : FlowLeases s) (hpc : s.calls t = pc)
    (hp : pc.flowPin = some v) (hn : pc'.flowPin = none) :
    FlowLeases ({ s with flows := s.flows.setObj v ((s.flows.obj v).unpin now) }.goto t pc') :=
  h.repin hpc (h.not_marked (hpc ▸ hp)) (fun w hw => by simp [hn, hp, hw.symm]) (by simp [hn, hp])

theorem CallMoves.flowLeases {made : Bool} (hr : Refs s) (h : FlowLeases s)
    (m : CallMoves s t now made s') : FlowLeases s' := by
  cases m with
  | flowCreate hpc _ => exact (h.create hr).goto hpc rfl
  | flowPin hpc hm => exact h.pin hpc hm rfl rfl
  | flowBackOff hpc => exact h.unpin hpc rfl rfl
  | release hpc => exact h.unpin hpc rfl rfl
  | flowFound hpc hl _ =>
    rcases hl with rfl | rfl <;> exact h.goto hpc rfl
  | bandThere hpc hc =>
    subst hpc
    rcases hc with hc | hc <;> exact h.goto hc rfl
  | crash => exact ⟨h.leases, h.marked⟩
  | ensureBand hpc | syncOk hpc | enterFirst hpc | syncFail hpc | dropNew hpc | dropOld hpc | bandPin hpc
  | bandBackOff hpc | unpinBand hpc | bandCreate hpc =>
    exact FlowLeases.goto ⟨h.leases, h.marked⟩ hpc rfl
  | _ hpc => exact h.goto hpc rfl

omit [DecidableEq Tid] in
theorem GcMoves.flowLeases {a : Act Tid} (h : FlowLeases s) (m : GcMoves s a s') : FlowLeases s' := by
  cases m with
  | keepFlow | markFlow => exact ⟨h.check.leases, h.check.marked⟩
  | _ => exact ⟨h.leases, h.marked⟩

theorem Moves.flowLeases {a : Act Tid} (hr : Refs s) (h : FlowLeases s) (m : Moves s a s') : FlowLeases s' := by
  cases m with
  | start hpc | refuse hpc =>
    rcases hpc with hpc | ⟨r, hpc⟩ <;> exact h.goto hpc rfl
  | finish hpc => exact h.goto hpc rfl
  | call m => exact m.flowLeases hr h
  | gc m => exact m.flowLeases h
  | stats => exact { h with }

end FlowLeases

/-! ## `sync.Once` -/

section Once

variable {Tid : Type} {s s' : State Tid} {t : Tid}

structure Once (s : State Tid) : Prop where
  fresh : ∀ v, s.flows.next ≤ v → s.init v = .fresh
  body : ∀ t v, (s.calls t).initializing = some v → s.init v = .running
  unique : ∀ t u v, (s.calls t).initializing = some v → (s.calls u).initializing = some v → t = u
  settled : ∀ t v e, (s.calls t).settled = some (v, e) → s.init v = .done e

variable [DecidableEq Tid] {pc' : CallPc}

theorem Once.goto {pc : CallPc} (h : Once s) (hpc : s.calls t = pc)
    (hb : pc'.initializing = none ∨ pc'.initializing = pc.initializing)
    (hs : ∀ v e, pc'.settled = some (v, e) → s.init v = .done e) : Once (s.goto t pc') := by
  have hb' : ∀ u v, ((s.goto t pc').calls u).initializing = some v → (s.calls u).initializing = some v := by
    intro u v hu
    simp only [State.goto_calls, update_apply] at hu
    split at hu
    · rename_i e
      rcases hb with hb | hb <;> rw [hb] at hu
      · cases hu
      · rw [e, hpc, hu]
    · exact hu
  refine ⟨h.fresh, fun u v hu => h.body u v (hb' u v hu),
    fun u w v hu hw => h.unique u w v (hb' u v hu) (hb' w v hw), fun u v e hu => ?_⟩
  simp only [State.goto_calls, update_apply] at hu
  split at hu
  · exact hs v e hu
  · exact h.settled u v e hu

theorem Once.enter {c : Conn} (h : Once s) (hlt : c.state < s.flows.next)
    (hi : s.init c.state = .fresh) (hb : pc'.initializing = some c.state) (hs : pc'.settled = none) :
    Once ({ s with init := update s.init c.state .running }.goto t pc') := by
  constructor
  · intro v hv
    have hne : v ≠ c.state := by simp only [State.goto_flows] at hv; omega
    simp [hne, h.fresh v hv]
  · intro u v hu
    simp only [State.goto_calls, update_apply] at hu
    split at hu
    · rw [hb, Option.some.injEq] at hu
      simp [hu]
    · have hr := h.body u v hu
      have hne : v ≠ c.state := fun e => by rw [e, hi] at hr; cases hr
      simp [hne, hr]
  · intro u w v hu hw
    have hfree : ∀ x, (s.calls x).initializing ≠ some c.state := fun x hx => by
      have := h.body x _ hx
      rw [hi] at this
      cases this
    simp only [State.goto_calls, update_apply] at hu hw
    split at hu <;> split at hw
    · simp_all
    · rw [hb] at hu
      exact absurd (hu ▸ hw) (hfree w)
    · rw [hb] at hw
      exact absurd (hw ▸ hu) (hfree u)
    · exact h.unique u w v hu hw
  · intro u v e hu
    simp only [State.goto_calls, update_apply] at hu
    split at hu
    · rw [hs] at hu
      cases hu
    · have hr := h.settled u v e hu
      have hne : v ≠ c.state := fun e => by rw [e, hi] at hr; cases hr
      simp [hne, hr]

theorem Once.leave {c : Conn} {pc : CallPc} {err : Option GoError} (h : Once s) (hpc : s.calls t = pc)
    (hlt : c.state < s.flows.next) (hc : pc.initializing = some c.state) (hb : pc'.initializing = none)
    (hs : pc'.settled = none) :
    Once ({ s with init := update s.init c.state (.done err) }.goto t pc') := by
  have hrun : s.init c.state = .running := h.body t _ (hpc ▸ hc)
  constructor
  · intro v hv
    have hne : v ≠ c.state := by simp only [State.goto_flows] at hv; omega
    simp [hne, h.fresh v hv]
  · intro u v hu
    simp only [State.goto_calls, update_apply] at hu
    split at hu
    · rw [hb] at hu
      cases hu
    · rename_i hut
      have hne : v ≠ c.state := fun e => hut (h.unique u t v hu (by rw [hpc, hc, e]))
      simp [hne, h.body u v hu]
  · intro u w v hu hw
    simp only [State.goto_calls, update_apply] at hu hw
    split at hu
    · rw [hb] at hu
      cases hu
    · split at hw
      · rw [hb] at hw
        cases hw
      · exact h.unique u w v hu hw
  · intro u v e hu
    simp only [State.goto_calls, update_apply] at hu
    split at hu
    · rw [hs] at hu
      cases hu
    · have hr := h.settled u v e hu
      have hne : v ≠ c.state := fun e => by rw [e, hrun] at hr; cases hr
      simp [hne, hr]

theorem CallMoves.once {now : Time} {made : Bool} (hr : Refs s) (h : Once s)
    (m : CallMoves s t now made s') : Once s' := by
  have hnone : ∀ {pc' : CallPc}, pc'.settled = none → ∀ v e, pc'.settled = some (v, e) → s.init v = .done e :=
    fun hn v e he => by rw [hn] at he; cases he
  cases m with
  | flowCreate hpc _ =>
    refine Once.goto ⟨fun v hv => h.fresh v ?_, h.body, h.unique, h.settled⟩ hpc (.inl rfl) (hnone rfl)
    simp only [Leases.create_next] at hv
    omega
  | enterFirst hpc hi => exact h.enter (hr.callFlow t _ _ (by rw [hpc]; rfl)).1 hi rfl rfl
  | syncFail hpc _ => exact h.leave hpc (hr.callFlow t _ _ (by rw [hpc]; rfl)).1 rfl rfl rfl
  | @syncOk c band topo hpc _ _ =>
    have hs : Once { s with topo } := ⟨h.fresh, h.body, h.unique, h.settled⟩
    exact hs.leave hpc (hr.callFlow t _ _ (by rw [hpc]; rfl)).1 rfl rfl rfl
  | bandThere hpc hc =>
    subst hpc
    rcases hc with hc | hc <;> exact h.goto hc (.inr rfl) (hnone rfl)
  | bandAbsent hpc => exact h.goto hpc (.inr rfl) (hnone rfl)
  | ensureBand hpc =>
    exact Once.goto ⟨h.fresh, h.body, h.unique, h.settled⟩ hpc (.inr rfl) (hnone rfl)
  | crash => exact ⟨h.fresh, h.body, h.unique, h.settled⟩
  | checkOk hpc hi | checkFail hpc hi =>
    refine h.goto hpc (.inl rfl) fun v e he => ?_
    cases he
    exact hi
  | dropNew hpc =>
    refine Once.goto ⟨h.fresh, h.body, h.unique, h.settled⟩ hpc (.inl rfl) fun v e he => ?_
    exact h.settled t v e (by rw [hpc]; exact he)
  | loadBand hpc =>
    refine h.goto hpc (.inl rfl) fun v e he => ?_
    exact h.settled t v e (by rw [hpc]; exact he)
  | flowPin hpc | flowBackOff hpc | release hpc | dropOld hpc | bandPin hpc | bandBackOff hpc | unpinBand hpc
  | bandCreate hpc => exact Once.goto ⟨h.fresh, h.body, h.unique, h.settled⟩ hpc (.inl rfl) (hnone rfl)
  | _ hpc => exact h.goto hpc (.inl rfl) (hnone rfl)

theorem Moves.once {a : Act Tid} (hr : Refs s) (h : Once s) (m : Moves s a s') : Once s' := by
  cases m with
  | start hpc | refuse hpc =>
    exact h.goto rfl (.inl rfl) nofun
  | finish hpc => exact h.goto hpc (.inl rfl) nofun
  | call m => exact m.once hr h
  | gc m => cases m <;> exact ⟨h.fresh, h.body, h.unique, h.settled⟩
  | stats => exact { h with }

end Once

end InferenceScheduler.Registry
