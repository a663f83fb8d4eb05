/-
Which flow states have their band lease. The call that creates a flow state
takes the lease some steps after the state is in the map, and who removes the
state gives it back some steps later. `Charged s ch` says what the set `ch` of
the flow states with a lease looks like in between.

`KeepsLeases` excludes three steps: the collector marking a flow state whose
creator has not yet taken the band lease, and a `flowStates.Delete(key)` of the
failure path or a `LoadAndDelete` of the collector hitting a newer state.
-/
import InferenceScheduler.Registry.FlowLeases

namespace InferenceScheduler.Registry

open Function (update_apply)

/-! ## Who answers for a band lease -/

/-- The flow state this call has created, and whether it has taken its band lease,
while the call answers for it. -/
def CallPc.maker : CallPc → Option (Nat × Bool)
  | .pinFlow _ pc => pc.made.map (·, false)
  | .pinBand c _ => some (c.state, false)
  | .arm c | .enter c | .lookupBand c | .ensureBand c | .syncFlow c | .check c | .drop c _ =>
    if c.isNew then some (c.state, true) else none
  | .loadBand c _ | .unpinBand c _ _ => some (c.state, true)
  | .idle | .callback _ | .release _ _ | .returned _ => none

/-- The failed flow state this call has removed from the map. -/
def CallPc.dropped : CallPc → Option Nat
  | .loadBand c _ | .unpinBand c _ _ => some c.state
  | _ => none

/-- The flow state the collector has marked and is about to remove. -/
def GcPc.marking : GcPc → Option Nat
  | .flows (.delete _ _ v) => some v
  | _ => none

variable {pc pc' : CallPc} {v : Nat}

theorem CallPc.flowPin_of_maker (h : pc.maker = some (v, true)) : pc.flowPin = some v := by
  cases pc with
  | pinFlow _ pc => cases pc <;> simp_all [maker]
  | _ => simp_all [maker, flowPin, conn]

theorem CallPc.flowRef_of_maker {b : Bool} (h : pc.maker = some (v, b)) : ∃ k, pc.flowRef = some (k, v) := by
  cases pc with
  | pinFlow key pc =>
    cases pc with
    | tryPin w isNew | recheck w isNew => cases isNew <;> simp_all [maker, PinPc.made, flowRef, PinPc.ref]
    | _ => simp [maker, PinPc.made] at h
  | _ => simp_all [maker, flowRef, conn]

theorem CallPc.maker_of_dropped (h : pc.dropped = some v) : pc.maker = some (v, true) := by
  cases pc <;> simp_all [maker, dropped]

variable {gc : GcPc}

theorem GcPc.flowRef_of_marking (h : gc.marking = some v) : ∃ k, gc.flowRef = some (k, v) := by
  cases gc with
  | flows pc => cases pc <;> simp_all [marking, flowRef]
  | _ => simp [marking] at h

/-! ## The steps that keep the promise -/

variable {Tid : Type}

/-- The flow state and the clock reading of the idle check a step makes. -/
def State.flowCheck (s : State Tid) : Act Tid → Option (Nat × Time)
  | .gcStep _ =>
    match s.gc with
    | .flows (.visit sc _ v) => some (v, sc.now)
    | _ => none
  | _ => none

/-- The key and the marked state of the `LoadAndDelete` a step makes. -/
def State.flowDelete (s : State Tid) : Act Tid → Option (FlowKey × Nat)
  | .gcStep _ =>
    match s.gc with
    | .flows (.delete _ k v) => some (k, v)
    | _ => none
  | _ => none

/-- The key and the failed state of the `flowStates.Delete` a step makes. -/
def State.flowDrop (s : State Tid) : Act Tid → Option (FlowKey × Nat)
  | .call t _ _ =>
    match s.calls t with
    | .drop c _ => some (c.key, c.state)
    | _ => none
  | _ => none

/-- A flow state is not found idle while its creator is on the way to the band lease. -/
def MarksCharged (s : State Tid) (a : Act Tid) : Prop :=
  ∀ c ∈ s.flowCheck a, (s.flows.obj c.1).IdleFor s.topo.config.flowGCTimeout c.2 →
    ∀ t, (s.calls t).maker ≠ some (c.1, false)

/-- A removal by key finds the state it was decided for, or none. -/
def RemovesOwn (s : State Tid) (a : Act Tid) : Prop :=
  (∀ d ∈ s.flowDrop a, ∀ w ∈ s.flows.table d.1, w = d.2) ∧ ∀ d ∈ s.flowDelete a, ∀ w ∈ s.flows.table d.1, w = d.2

def KeepsLeases (s : State Tid) (a : Act Tid) : Prop := MarksCharged s a ∧ RemovesOwn s a

instance [Fintype Tid] (s : State Tid) (a : Act Tid) : Decidable (MarksCharged s a) :=
  inferInstanceAs (Decidable (∀ c ∈ s.flowCheck a, _ → ∀ _ : Tid, _))

instance (s : State Tid) (a : Act Tid) : Decidable (RemovesOwn s a) :=
  inferInstanceAs (Decidable ((∀ d ∈ s.flowDrop a, _) ∧ ∀ d ∈ s.flowDelete a, _))

instance [Fintype Tid] (s : State Tid) (a : Act Tid) : Decidable (KeepsLeases s a) :=
  inferInstanceAs (Decidable (_ ∧ _))

/-! ## The charged states -/

/-- `ch` is the set of flow states that hold a band lease. -/
structure Charged (s : State Tid) (ch : Finset Nat) : Prop where
  lt : ∀ v ∈ ch, v < s.flows.next
  maker : ∀ t v b, (s.calls t).maker = some (v, b) → (v ∈ ch ↔ b = true)
  unique : ∀ t u v b c, (s.calls t).maker = some (v, b) → (s.calls u).maker = some (v, c) → t = u
  unmarked : ∀ t v, (s.calls t).maker = some (v, false) → (s.flows.obj v).markedForDeletion = false
  dropped : ∀ t v, (s.calls t).dropped = some v → ¬s.flows.Live v
  /-- a state in the map holds its lease, or its creator is about to take it -/
  live : ∀ v, s.flows.Live v → v ∈ ch ∨ ∃ t, (s.calls t).maker = some (v, false)
  /-- a lease is given back by the collector or the creator, or is that of a
  provisioned state in the map -/
  source : ∀ v ∈ ch, v ∈ s.gc.pending ∨ (∃ t, (s.calls t).maker = some (v, true)) ∨
    (s.init v = .done none ∧ s.flows.Live v)
  nodup : s.gc.pending.Nodup
  pending : ∀ v ∈ s.gc.pending, v ∈ ch ∧ ¬s.flows.Live v ∧ ∀ t b, (s.calls t).maker ≠ some (v, b)
  marking : ∀ v, s.gc.marking = some v →
    (s.flows.obj v).markedForDeletion = true ∧ ∀ t b, (s.calls t).maker ≠ some (v, b)
  gone : ∀ v, v < s.flows.next → ¬s.flows.Live v →
    (s.flows.obj v).markedForDeletion = true ∨ ∃ e, s.init v = .done (some e)

variable {s s' : State Tid} {t : Tid} {ch : Finset Nat}

theorem Charged.frame (h : Charged s ch) (htable : s'.flows.table = s.flows.table)
    (hkey : s'.flows.key = s.flows.key) (hnext : s'.flows.next = s.flows.next)
    (hmark : ∀ v, (s'.flows.obj v).markedForDeletion = (s.flows.obj v).markedForDeletion)
    (hinit : ∀ v e, s.init v = .done e → s'.init v = .done e)
    (hmaker : ∀ u, (s'.calls u).maker = (s.calls u).maker)
    (hdrop : ∀ u, (s'.calls u).dropped = (s.calls u).dropped)
    (hpending : s'.gc.pending = s.gc.pending)
    (hmarking : s'.gc.marking = none ∨ s'.gc.marking = s.gc.marking) : Charged s' ch := by
  have hlive : ∀ v, s'.flows.Live v ↔ s.flows.Live v := fun v => by rw [Leases.Live, Leases.Live, htable, hkey]
  constructor
  · simpa only [hnext] using h.lt
  · simpa only [hmaker] using h.maker
  · simpa only [hmaker] using h.unique
  · simpa only [hmaker, hmark] using h.unmarked
  · simpa only [hdrop, hlive] using h.dropped
  · simpa only [hmaker, hlive] using h.live
  · intro v hv
    rw [hpending, hlive]
    simp only [hmaker]
    exact (h.source v hv).imp_right (Or.imp_right fun hi => ⟨hinit v _ hi.1, hi.2⟩)
  · rw [hpending]
    exact h.nodup
  · simpa only [hpending, hlive, hmaker] using h.pending
  · intro v hv
    simp only [hmark, hmaker]
    rcases hmarking with hm | hm
    · rw [hm] at hv
      cases hv
    · exact h.marking v (hm ▸ hv)
  · intro v hv hl
    rw [hmark]
    rcases h.gone v (hnext ▸ hv) (fun hl' => hl ((hlive v).mpr hl')) with hm | ⟨e, he⟩
    · exact .inl hm
    · exact .inr ⟨e, hinit v _ he⟩

variable {bands : Leases Int}

theorem Charged.gcGoto {topo : Topology} (h : Charged s ch)
    (hp : gc.pending = s.gc.pending) (hm : gc.marking = none) : Charged { s with bands, topo, gc } ch :=
  h.frame rfl rfl rfl (fun _ => rfl) (fun _ _ he => he) (fun _ => rfl) (fun _ => rfl) hp (.inl hm)

theorem Charged.setInit {x : Init} (h : Charged s ch) (hx : ∀ e, s.init v ≠ .done e) :
    Charged { s with init := Function.update s.init v x } ch := by
  refine h.frame rfl rfl rfl (fun _ => rfl) (fun w e he => ?_) (fun _ => rfl) (fun _ => rfl) rfl (.inr rfl)
  have hne : w ≠ v := fun hw => hx e (hw ▸ he)
  simpa [hne] using he

variable [DecidableEq Tid]

theorem State.view_goto {β : Type} (f : CallPc → β) (hpc : s.calls t = pc) (h : f pc' = f pc)
    (u : Tid) : f ((s.goto t pc').calls u) = f (s.calls u) := by
  simp only [State.goto_calls, update_apply]
  split
  · rename_i e; rw [e, hpc, h]
  · rfl

theorem State.maker_goto {x : Nat × Bool} {u : Tid} : ((s.goto t pc).calls u).maker = some x ↔
      (u = t ∧ pc.maker = some x) ∨ (u ≠ t ∧ (s.calls u).maker = some x) := by
  simp only [State.goto_calls, update_apply]
  split <;> simp_all

theorem State.dropped_goto {u : Tid} : ((s.goto t pc).calls u).dropped = some v ↔
      (u = t ∧ pc.dropped = some v) ∨ (u ≠ t ∧ (s.calls u).dropped = some v) := by
  simp only [State.goto_calls, update_apply]
  split <;> simp_all

theorem Charged.goto {topo : Topology} (h : Charged s ch)
    (hpc : s.calls t = pc) (hm : pc'.maker = pc.maker) (hd : pc'.dropped = pc.dropped) :
    Charged ({ s with bands, topo }.goto t pc') ch :=
  h.frame rfl rfl rfl (fun _ => rfl) (fun _ _ he => he) (State.view_goto CallPc.maker hpc hm)
    (State.view_goto CallPc.dropped hpc hd) rfl (.inr rfl)

theorem Charged.setFlow {ls : LeasedState} (h : Charged s ch)
    (hls : ls.markedForDeletion = (s.flows.obj v).markedForDeletion) (hpc : s.calls t = pc)
    (hm : pc'.maker = pc.maker) (hd : pc'.dropped = pc.dropped) :
    Charged ({ s with flows := s.flows.setObj v ls }.goto t pc') ch := by
  refine h.frame rfl rfl rfl (fun w => ?_) (fun _ _ he => he) (State.view_goto CallPc.maker hpc hm)
    (State.view_goto CallPc.dropped hpc hd) rfl (.inr rfl)
  simp only [State.goto_flows, Leases.setObj_obj, update_apply]
  split
  · rename_i e; rw [hls, e]
  · rfl

theorem Charged.create {key : FlowKey} (h : Charged s ch) (hr : Refs s) (hpc : s.calls t = pc)
    (hm : pc.maker = none) (hk : s.flows.table key = none) (hm' : pc'.maker = some (s.flows.next, false))
    (hd' : pc'.dropped = none) : Charged ({ s with flows := s.flows.create key }.goto t pc') ch := by
  have hlive := fun v => Leases.live_create (v := v) hk
  have hlt : ∀ u v b, (s.calls u).maker = some (v, b) → v < s.flows.next := fun u v b hu => by
    obtain ⟨k, hk⟩ := CallPc.flowRef_of_maker hu
    exact (hr.callFlow u k v hk).1
  have hltd : ∀ u v, (s.calls u).dropped = some v → v < s.flows.next := fun u v hu =>
    hlt u v true (CallPc.maker_of_dropped hu)
  have hold : ∀ u v b, (s.calls u).maker = some (v, b) → u ≠ t := fun u v b hu e => by
    rw [e, hpc, hm] at hu
    cases hu
  have hltp : ∀ v ∈ s.gc.pending, v ≠ s.flows.next := fun v hv => (hr.pending v hv).ne
  have hltm : ∀ v, s.gc.marking = some v → v < s.flows.next := fun v hv => by
    obtain ⟨k, hk⟩ := GcPc.flowRef_of_marking hv
    exact (hr.gcFlow k v hk).1
  constructor <;> simp only [ne_eq, State.maker_goto, State.dropped_goto, State.goto_flows, State.goto_init,
    State.goto_gc, Leases.create_next, Leases.create_obj, hlive, update_apply]
  case lt =>
    intro v hv
    have := h.lt v hv
    omega
  case maker => grind [h.maker, h.lt]
  case unique => grind [h.unique]
  case unmarked => grind [h.unmarked]
  case dropped => grind [h.dropped]
  case live => grind [h.live]
  case source => grind [h.source]
  case nodup => exact h.nodup
  case pending => grind [h.pending]
  case marking => grind [h.marking]
  case gone => grind [h.gone]

/-- The call that answers for a state's lease takes it, gives it back or hands it on. -/
theorem Charged.advance {ch' : Finset Nat} {b : Bool} (h : Charged s ch) (hmt : (s.calls t).maker = some (v, b))
    (hother : ∀ w, w ≠ v → (w ∈ ch' ↔ w ∈ ch)) (hlt : v ∈ ch' → v < s.flows.next)
    (hm' : ∀ x, pc'.maker = some x → x = (v, true) ∧ v ∈ ch') (hd' : pc'.dropped = none)
    (hlive : s.flows.Live v → v ∈ ch')
    (hsource : v ∈ ch' → pc'.maker = some (v, true) ∨ (s.init v = .done none ∧ s.flows.Live v)) :
    Charged ({ s with bands }.goto t pc') ch' := by
  have hltch := h.lt
  constructor <;> simp only [ne_eq, State.maker_goto, State.dropped_goto, State.goto_flows, State.goto_init,
    State.goto_gc, hd', reduceCtorEq, and_false, false_or]
  case lt => grind
  case maker => grind [h.maker, h.unique]
  case unique => grind [h.unique]
  case unmarked => grind [h.unmarked]
  case dropped => grind [h.dropped]
  case live => grind [h.live]
  case source => grind [h.source]
  case nodup => exact h.nodup
  case pending => grind [h.pending]
  case marking => grind [h.marking]
  case gone => exact h.gone

theorem Charged.charge (h : Charged s ch) (hpc : s.calls t = pc)
    (hm : pc.maker = some (v, false)) (hlt : v < s.flows.next) (hm' : pc'.maker = some (v, true))
    (hd' : pc'.dropped = none) : Charged (s.goto t pc') (insert v ch) := by
  refine h.advance (hpc ▸ hm) (fun w hw => by simp [hw]) (fun _ => hlt) (fun x hx => ?_) hd' (fun _ => by simp)
    fun _ => .inl hm'
  rw [hm', Option.some.injEq] at hx
  exact ⟨hx.symm, by simp⟩

theorem Charged.settle {b : Bool} (h : Charged s ch) (hpc : s.calls t = pc)
    (hm : pc.maker = some (v, b)) (hm' : pc'.maker = none) (hd' : pc'.dropped = none)
    (hb : if b then s.init v = .done none ∧ s.flows.Live v else ¬s.flows.Live v) : Charged (s.goto t pc') ch := by
  have hmt : (s.calls t).maker = some (v, b) := hpc ▸ hm
  have hch := h.maker t v b hmt
  refine h.advance hmt (fun _ _ => Iff.rfl) (h.lt v) (by simp [hm']) hd' (fun hl => ?_) fun hv => ?_
  · cases b <;> simp_all
  · exact .inr (by simpa [hch.mp hv] using hb)

theorem Charged.giveBack (h : Charged s ch)
    (hpc : s.calls t = pc) (hd : pc.dropped = some v) (hm' : pc'.maker = none) (hd' : pc'.dropped = none) :
    Charged ({ s with bands }.goto t pc') (ch.erase v) := by
  have hlive : ¬s.flows.Live v := h.dropped t v (hpc ▸ hd)
  exact h.advance (hpc ▸ CallPc.maker_of_dropped hd) (fun w hw => by simp [hw]) (by simp) (by simp [hm']) hd'
    (fun hl => absurd hl hlive) (by simp)

theorem Charged.drop {c : Conn} {e : GoError} (h : Charged s ch) (hr : Refs s) (ho : Once s)
    (hpc : s.calls t = .drop c e) (hown : ∀ w ∈ s.flows.table c.key, w = c.state)
    (hm' : pc'.maker = (CallPc.drop c e).maker) (hd' : ∀ v, pc'.dropped = some v → v = c.state) :
    Charged ({ s with flows := s.flows.erase c.key }.goto t pc') ch := by
  have hkey : s.flows.key c.state = c.key := (hr.callFlow t c.key c.state (by rw [hpc]; rfl)).2
  have hinit : s.init c.state = .done (some e) := ho.settled t c.state (some e) (by rw [hpc]; rfl)
  have hlive : ∀ v, (s.flows.erase c.key).Live v ↔ s.flows.Live v ∧ v ≠ c.state := fun v => by
    rw [Leases.live_erase]
    refine and_congr_right fun hl => not_congr ⟨fun hk => hown v ?_, fun hv => hv ▸ hkey⟩
    rw [← hk]
    exact hl
  have hmaker : ∀ u, (({ s with flows := s.flows.erase c.key }.goto t pc').calls u).maker = (s.calls u).maker :=
    State.view_goto CallPc.maker hpc hm'
  constructor <;> simp only [hmaker, State.dropped_goto, State.goto_flows, State.goto_init,
    State.goto_gc, hlive, Leases.erase_next, Leases.erase_obj]
  case lt => exact h.lt
  case maker => exact h.maker
  case unique => exact h.unique
  case unmarked => exact h.unmarked
  case dropped => grind [h.dropped]
  case live => exact fun v hv => h.live v hv.1
  case source => grind [h.source]
  case nodup => exact h.nodup
  case pending => grind [h.pending]
  case marking => exact h.marking
  case gone => grind [h.gone]

omit [DecidableEq Tid] in
theorem Charged.mark {ls : LeasedState} (h : Charged s ch)
    (hno : ∀ t b, (s.calls t).maker ≠ some (v, b)) (hls : ls.markedForDeletion = true)
    (hp : gc.pending = s.gc.pending) (hm : gc.marking = some v) :
    Charged { s with flows := s.flows.setObj v ls, gc } ch := by
  have hmark : ∀ w, ((s.flows.setObj v ls).obj w).markedForDeletion = true ↔
      w = v ∨ (s.flows.obj w).markedForDeletion = true := fun w => by
    simp only [Leases.setObj_obj, update_apply]
    split <;> simp_all
  have hlive : ∀ w, (s.flows.setObj v ls).Live w ↔ s.flows.Live w := fun w => Iff.rfl
  constructor <;> simp only [hlive, hp, Leases.setObj_next, hmark]
  case lt => exact h.lt
  case maker => exact h.maker
  case unique => exact h.unique
  case unmarked =>
    intro t w hw
    have hne : w ≠ v := fun e => hno t false (e ▸ hw)
    simp [hne, h.unmarked t w hw]
  case dropped => exact h.dropped
  case live => exact h.live
  case source => exact h.source
  case nodup => exact h.nodup
  case pending => exact h.pending
  case marking =>
    intro w hw
    rw [hm, Option.some.injEq] at hw
    exact ⟨.inl hw.symm, hw ▸ hno⟩
  case gone => exact fun w hw hl => (h.gone w hw hl).imp_left .inr

omit [DecidableEq Tid] in
theorem Charged.remove (h : Charged s ch) (hmv : s.gc.marking = some v) (hl : s.flows.Live v)
    (hp : gc.pending = s.gc.pending ++ [v]) (hm : gc.marking = none) :
    Charged { s with flows := s.flows.erase (s.flows.key v), gc } ch := by
  obtain ⟨hmarked, hno⟩ := h.marking v hmv
  have hch : v ∈ ch := (h.live v hl).resolve_right fun ⟨t, ht⟩ => hno t false ht
  have hlive : ∀ w, (s.flows.erase (s.flows.key v)).Live w ↔ s.flows.Live w ∧ w ≠ v := fun w => by
    rw [Leases.live_erase]
    refine and_congr_right fun hw => not_congr ⟨fun hk => ?_, fun e => e ▸ rfl⟩
    rw [Leases.Live, hk, hl, Option.some.injEq] at hw
    exact hw.symm
  constructor <;> simp only [hlive, hp, hm, Leases.erase_next, Leases.erase_obj, List.mem_append,
    List.mem_singleton]
  case lt => exact h.lt
  case maker => exact h.maker
  case unique => exact h.unique
  case unmarked => exact h.unmarked
  case dropped => exact fun t w hw hl => h.dropped t w hw hl.1
  case live => exact fun w hw => h.live w hw.1
  case source => grind [h.source]
  case nodup =>
    rw [List.nodup_append]
    exact ⟨h.nodup, by simp, fun w hw x hx e => (h.pending w hw).2.1 (by simp_all)⟩
  case pending => grind [h.pending]
  case marking => simp
  case gone => grind [h.gone]

omit [DecidableEq Tid] in
theorem Charged.release {todo : List Nat} (h : Charged s ch)
    (hv : s.gc.pending = v :: todo) (hp : gc.pending = todo) (hm : gc.marking = none) :
    Charged { s with bands, gc } (ch.erase v) := by
  have hnd := h.nodup
  rw [hv, List.nodup_cons] at hnd
  have hpend := h.pending
  simp only [hv, List.mem_cons] at hpend
  have hsource := h.source
  simp only [hv, List.mem_cons] at hsource
  constructor <;> simp only [hp, hm, Finset.mem_erase]
  case lt => exact fun w hw => h.lt w hw.2
  case maker => grind [h.maker]
  case unique => exact h.unique
  case unmarked => exact h.unmarked
  case dropped => exact h.dropped
  case live => grind [h.live]
  case source => grind
  case nodup => exact hnd.2
  case pending => grind
  case marking => simp
  case gone => exact h.gone

/-! ## Only creators pin bands -/

/-- A call that pins a band created its flow. -/
def CallPc.bandByCreator : CallPc → Bool
  | .pinBand c _ => c.isNew
  | _ => true

def BandsByCreators (s : State Tid) : Prop := ∀ t, (s.calls t).bandByCreator = true

theorem BandsByCreators.goto (h : BandsByCreators s) (hpc : pc.bandByCreator = true) :
    BandsByCreators (s.goto t pc) :=
  (Function.forall_update_iff s.calls fun _ pc => pc.bandByCreator = true).mpr ⟨hpc, fun u _ => h u⟩

theorem Moves.bandsByCreators {a : Act Tid} (h : BandsByCreators s) (m : Moves s a s') : BandsByCreators s' := by
  cases m with
  | start | refuse | finish => exact h.goto rfl
  | gc m => cases m <;> exact h
  | stats => exact h
  | @call t _ _ _ m =>
    have ht := h t
    cases m with
    | bandFound hpc | bandMissing hpc | bandCreate hpc | bandPin hpc | bandRefused hpc | bandStale hpc
    | bandBackOff hpc =>
      rw [hpc] at ht
      exact BandsByCreators.goto h ht
    | crash => exact h
    | _ => exact BandsByCreators.goto h rfl

end InferenceScheduler.Registry
