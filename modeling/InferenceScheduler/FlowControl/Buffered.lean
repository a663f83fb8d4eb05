/-
The collector and the buffered requests. `EnqueueAndWait` holds its flow's lease
from the connection to its return. A call that expires returns while its item
still lies in the channel or in the queue, and from then on nothing keeps the
collector from the flow (`collected_with_item`).

`KeepsBuffered` asks the collector to find no idle flow with a buffered item: an
expired request is swept before its flow has been idle for the timeout. Then
every buffered item's flow has a state that is not marked (`Tended`), and the
state keeps the queue.
-/
import InferenceScheduler.FlowControl.Totals

namespace InferenceScheduler.FlowControl

open Registry (Topology)
open Controller (Buffered)

variable {Tid : Type}

/-! ## Calls and their connections -/

/-- Call `t` is in its callback on the flow. -/
def Connected (s : State Tid) (t : Tid) (key : FlowKey) : Prop :=
  ∃ c, s.registry.calls t = .callback c ∧ c.key = key

/-- A call of the controller and its `WithConnection` are about one flow. -/
structure Linked (s : State Tid) : Prop where
  connecting : ∀ {t r}, s.controller.calls t = .connecting r →
    ∀ key, (s.registry.calls t).flowKey = some key → key = r.key
  connected : ∀ {t key}, (s.controller.calls t).connection s.controller.items = some key → Connected s t key

section Linked

variable [DecidableEq Tid] {s s' : State Tid} {a : Act Tid} {t : Tid} {key : FlowKey}

theorem Moves.registryAct_finish {r : Option GoError} (m : Moves s a s')
    (h : s.registryAct a = some (.finish t r)) : a = .finish t := by
  cases m with
  | start | connected | refused | leave => cases h
  | finish hpc =>
    simp only [State.registryAct, hpc, Option.some.injEq, Registry.Act.finish.injEq] at h
    rw [h.1]
  | registry hi =>
    cases h
    cases hi
  | controller | queue | panic =>
    obtain ⟨x, -, hx⟩ := Option.map_eq_some_iff.mp h
    cases hx

theorem Moves.registryAct_start (m : Moves s a s') (h : s.registryAct a = some (.start t key)) :
    ∃ r, a = .start t r := by
  cases m with
  | start =>
    cases h
    exact ⟨_, rfl⟩
  | connected | refused | leave => cases h
  | finish hpc => simp [State.registryAct, hpc] at h
  | registry hi =>
    cases h
    cases hi
  | controller | queue | panic =>
    obtain ⟨x, -, hx⟩ := Option.map_eq_some_iff.mp h
    cases hx

theorem Connected.step (h : Connected s t key) (m : Moves s a s') (ha : a ≠ .finish t) : Connected s' t key := by
  obtain ⟨c, hc, hk⟩ := h
  rcases m.registry_step with he | ⟨b, hb, hr⟩
  · exact ⟨c, by rw [he]; exact hc, hk⟩
  · refine ⟨c, (Registry.step_moves hr).callback hc fun r hfin => ha ?_, hk⟩
    exact m.registryAct_finish (hfin ▸ hb)

theorem Moves.flowKey (m : Moves s a s') (ha : ∀ r, a ≠ .start t r) :
    (s'.registry.calls t).flowKey = (s.registry.calls t).flowKey ∨ (s'.registry.calls t).flowKey = none := by
  rcases m.registry_step with he | ⟨b, hb, hr⟩
  · rw [he]
    exact .inl rfl
  · refine (Registry.step_moves hr).flowKey fun key hst => ?_
    obtain ⟨r, har⟩ := m.registryAct_start (hst ▸ hb)
    exact ha r har

theorem Moves.connecting {r : Controller.Request} (m : Moves s a s') (ha : ∀ r, a ≠ .start t r)
    (h : s'.controller.calls t = .connecting r) : s.controller.calls t = .connecting r := by
  rcases m.controller_step with he | ⟨b, hb, hc, -⟩
  · rw [← he]
    exact h
  · rcases (Controller.step_moves hc).calls with he | ⟨u, pc, he, hnext, -⟩
    · rw [← he]
      exact h
    · rw [he, Function.update_apply] at h
      split at h
      · subst u
        cases hnext with
        | goto _ hgo =>
          subst h
          cases hgo with
          | start => exact absurd (controllerAct_call hb) (ha _)
        | candidates _ hpc => rcases hpc with rfl | ⟨f, rfl⟩ <;> cases h
        | send | receive => cases h
        | @finalize _ _ next hf =>
          cases hpc : s.controller.calls t <;> rw [hpc] at hf h <;> cases hf <;> cases next <;> cases h
      · exact h

theorem Linked.step (h : Linked s) (hal : Controller.Allocated s.controller) (m : Moves s a s') : Linked s' := by
  constructor
  · intro t r hpc key hk
    by_cases hstart : ∃ r', a = .start t r'
    · obtain ⟨r', rfl⟩ := hstart
      cases m with
      | start _ hr =>
        simp only [Controller.State.goto, Function.update_self] at hpc
        cases hpc
        cases Registry.step_moves hr with
        | start | refuse => simp_all [Registry.CallPc.flowKey]
        | gc m => cases m
    · have hno : ∀ r, a ≠ .start t r := fun r hr => hstart ⟨r, hr⟩
      rcases m.flowKey hno with he | he
      · exact h.connecting (m.connecting hno hpc) key (he ▸ hk)
      · rw [he] at hk
        cases hk
  · intro t key hk
    by_cases hconn : a = .connected t
    · subst hconn
      cases m with
      | @connected _ r c hcb hpc =>
        simp only [Controller.State.goto, Function.update_self] at hk
        cases hk
        exact ⟨c, hcb, h.connecting hpc c.key (by rw [hcb]; rfl)⟩
    · have hk₀ : (s.controller.calls t).connection s.controller.items = some key := by
        rcases m.controller_step with he | ⟨b, hb, hc, -⟩
        · rw [← he]
          exact hk
        · refine (Controller.step_moves hc).connection hal (fun he => hconn ?_) hk
          exact controllerAct_call (x := .connected) (he ▸ hb)
      refine (h.connected hk₀).step m fun hfin => ?_
      subst hfin
      cases m with
      | finish hpc =>
        rw [hpc] at hk₀
        cases hk₀

end Linked

/-! ## The condition -/

/-- The items in the channel, on the processor's way to a queue, and in the queues. -/
def State.buffered (s : State Tid) : List Nat :=
  s.controller.enqueueChan ++ s.controller.run.admitting.toList ++
    (List.range s.registry.topo.nextQueue).flatMap s.controller.queues

/-- The collector does not find a flow idle that has a buffered item. -/
def SparesBuffered (s : State Tid) (b : Registry.Act Tid) : Prop :=
  ∀ c ∈ s.registry.flowCheck b,
    (s.registry.flows.obj c.1).IdleFor s.registry.topo.config.flowGCTimeout c.2 →
      ∀ i ∈ s.buffered, (s.controller.items i).key ≠ s.registry.flows.key c.1

/-- The collector spares the flows with buffered items, and provisioning keeps the
leases and the bands. -/
def KeepsBuffered (s : State Tid) (a : Act Tid) : Prop :=
  ∀ b ∈ s.registryAct a, SparesBuffered s b ∧ Registry.KeepsLeases s.registry b ∧ Registry.KeepsGapBands s.registry b

instance (s : State Tid) (b : Registry.Act Tid) : Decidable (SparesBuffered s b) :=
  inferInstanceAs (Decidable (∀ c ∈ _, _ → ∀ i ∈ _, _))

instance [DecidableEq Tid] [Fintype Tid] (s : State Tid) (a : Act Tid) : Decidable (KeepsBuffered s a) :=
  inferInstanceAs (Decidable (∀ b ∈ s.registryAct a, _ ∧ _ ∧ _))

/-! ## The flow of a buffered item -/

/-- The flow of a buffered item has a state that is not marked. -/
def Tended (s : State Tid) : Prop :=
  ∀ i, Buffered s.controller i → Registry.Held s.registry (s.controller.items i).key

theorem mem_buffered {s : State Tid} {i : Nat} (ht : s.registry.topo.Agrees)
    (hh : Homes s.registry.topo s.controller) (h : Buffered s.controller i) : i ∈ s.buffered := by
  simp only [State.buffered, List.mem_append, Option.mem_toList, List.mem_flatMap, List.mem_range]
  cases h with
  | chan h => exact .inl (.inl h)
  | run h => exact .inl (.inr h)
  | queue h => exact .inr ⟨_, ((registered_iff ht).mp (hh.queue h)).2.2, h⟩

section Tended

variable [DecidableEq Tid] [Fintype Tid] {s s' : State Tid} {a : Act Tid} {ch ch' : Finset Nat}

omit [DecidableEq Tid] in
theorem Connected.held {t : Tid} {key : FlowKey} (h : Connected s t key) (hl : Registry.Ledger s.registry ch) :
    Registry.Held s.registry key := by
  obtain ⟨c, hc, rfl⟩ := h
  exact hl.held hc

theorem Tended.step (h : Tended s) (hlink : Linked s) (ht : s.registry.topo.Agrees)
    (hh : Homes s.registry.topo s.controller) (hal : Controller.Allocated s.controller)
    (hl : Registry.Ledger s.registry ch) (hl' : Registry.Ledger s'.registry ch') (hok : KeepsBuffered s a)
    (m : Moves s a s') : Tended s' := by
  intro i hi
  -- the flows of the items that were buffered before are spared
  have hold : Buffered s.controller i → Registry.Held s'.registry (s.controller.items i).key := fun hb => by
    rcases m.registry_step with he | ⟨b, hb', hr⟩
    · rw [he]
      exact h i hb
    · refine (Registry.step_moves hr).held hl (h i hb) fun c hc hidle hkey => ?_
      exact (hok b hb').1 c hc hidle i (mem_buffered ht hh hb) hkey.symm
  rcases m.controller_step with he | ⟨b, hb', hc, -⟩
  · rw [he] at hi ⊢
    exact hold hi
  · have hm := Controller.step_moves hc
    rcases hm.buffered hi with hb | ⟨t, hpc, hpc'⟩
    · rw [(hm.keeps_request (hal.lt i hb.refers)).1]
      exact hold hb
    · -- the call that puts it into the channel is connected
      have hitem : (s.controller.calls t).item = some i := by rcases hpc with h | h <;> rw [h] <;> rfl
      have hcon : Connected s t (s.controller.items i).key :=
        hlink.connected (by rcases hpc with h | h <;> rw [h] <;> rfl)
      rw [(hm.keeps_request (hal.lt i (.call hitem))).1]
      refine (hcon.step m ?_).held hl'
      rintro rfl
      cases m with
      | finish hleave => rcases hpc with h | h <;> rw [hleave] at h <;> cases h

theorem Moves.hasQueue_held {key : FlowKey} {q : Nat} (h : Registry.Held s.registry key)
    (hl : Registry.Ledger s.registry ch) (hs : Registry.Sound s.registry) (hok : KeepsBuffered s a) (m : Moves s a s')
    (hq : s.registry.topo.HasQueue key q) : s'.registry.topo.HasQueue key q := by
  rcases m.registry_step with he | ⟨b, hb, hr⟩
  · rw [he]
    exact hq
  · exact (Registry.step_moves hr).hasQueue_held hl hs (hok b hb).2.2 h hq

theorem Homes.registry_step (h : Homes s.registry.topo s.controller) (htend : Tended s)
    (hl : Registry.Ledger s.registry ch) (hs : Registry.Sound s.registry) (hok : KeepsBuffered s a)
    (m : Moves s a s') : Homes s'.registry.topo s.controller := by
  constructor
  · intro q i hi
    exact m.hasQueue_held (htend i (.queue hi)) hl hs hok (h.queue hi)
  · intro i q hi
    exact m.hasQueue_held (htend i (.run (Controller.RunPc.admitting_of_target hi))) hl hs hok (h.target hi)

theorem Homes.system_step (h : Homes s.registry.topo s.controller) (htend : Tended s)
    (hal : Controller.Allocated s.controller) (hl : Registry.Ledger s.registry ch) (hs : Registry.Sound s.registry)
    (hok : KeepsBuffered s a) (m : Moves s a s') : Homes s'.registry.topo s'.controller := by
  by_cases hgc : WithoutGc s a
  · refine Homes.mono ?_ fun k q => m.hasQueue hs hgc
    rcases m.controller_step with he | ⟨b, -, hc, hans⟩
    · rw [he]
      exact h
    · exact h.step hal hans (Controller.step_moves hc)
  · have hreg := h.registry_step htend hl hs hok m
    cases m with
    | registry => exact hreg
    | start | connected | refused | finish | leave | controller | queue | panic => exact absurd rfl hgc

omit [Fintype Tid] in
theorem Totals.system_step (h : Totals s.registry.topo s.controller) (hh : Homes s.registry.topo s.controller)
    (hal : Controller.Allocated s.controller) (hs : Registry.Sound s.registry) (m : Moves s a s')
    (hp : s.panicked = false) : Totals s'.registry.topo s'.controller ∧ s'.panicked = false := by
  have hreg : ∀ {b registry}, Registry.step s.registry b = some registry → (∀ p l n, b ≠ .stats p l n) →
      Totals registry.topo s.controller := fun hr hb => h.registry_step hs hh hb (Registry.step_moves hr)
  cases m with
  | start _ hr => exact ⟨(hreg hr nofun).quiet fun _ => rfl, hp⟩
  | connected | refused | leave => exact ⟨h.quiet fun _ => rfl, hp⟩
  | finish _ hr => exact ⟨hreg hr nofun, hp⟩
  | registry hi hr =>
    refine ⟨hreg hr ?_, hp⟩
    rintro p l n rfl
    cases hi
  | controller _ hc hq =>
    refine ⟨h.quiet fun q => ?_, hp⟩
    rw [load_step (Controller.step_moves hc) hal (answer_ne_draining _ _), queueChange_answer, hq, change, add_zero]
  | queue _ hc hq hr =>
    refine ⟨?_, hp⟩
    obtain ⟨key, hkey⟩ := hh.of_queueChange hq
    cases Registry.step_moves hr with
    | stats ht =>
      refine h.report ((registered_iff hs.agrees).mp hkey).2.2 (fun q' => ?_) ht
      rw [load_step (Controller.step_moves hc) hal (answer_ne_draining _ _), queueChange_answer, hq]
    | gc m => cases m
  | @panic _ _ q l n _ _ hq hr =>
    obtain ⟨key, hkey⟩ := hh.of_queueChange hq
    have hsome := propagateStatsDelta_isSome (l := l) (n := n) hs.agrees hkey
    simp only [Registry.step, hs.running, Bool.false_eq_true, if_false, Option.map_eq_none_iff] at hr
    rw [hr] at hsome
    cases hsome

/-! ## The collector removes no buffered request -/

/-- What every state of a run under `KeepsBuffered` has. -/
structure Keeping (s : State Tid) : Prop where
  running : s.panicked = false
  linked : Linked s
  tended : Tended s
  homes : Homes s.registry.topo s.controller
  totals : Totals s.registry.topo s.controller

variable {cfg : Registry.InitialConfig} {n : Nat}

omit [Fintype Tid] in
theorem keepsLeases_of_keepsBuffered (h : Reaches step KeepsBuffered (State.new cfg n) s) :
    Reaches Registry.step Registry.KeepsLeases (Registry.State.new cfg) s.registry :=
  registry_reaches (fun _ _ b hok hb => (hok b hb).2.1) h

theorem keeping_reaches (h : Reaches step KeepsBuffered (State.new cfg n) s) : Keeping s := by
  induction h with
  | init =>
    refine ⟨rfl, ⟨nofun, nofun⟩, fun i hi => ?_, ⟨nofun, nofun⟩, .new cfg n⟩
    cases hi with
    | chan h | run h | queue h => cases h
  | @next s a s' hr hok hs ih =>
    obtain ⟨-, m⟩ := step_moves hs
    have hal := Controller.allocated_reaches (controller_reaches hr)
    have hreg := keepsLeases_of_keepsBuffered hr
    have hsound := Registry.sound_reaches hreg
    obtain ⟨ch, hl⟩ := Registry.ledger_reaches hreg
    obtain ⟨ch', hl'⟩ := Registry.ledger_reaches (keepsLeases_of_keepsBuffered (hr.next hok hs))
    obtain ⟨htot, hp⟩ := ih.totals.system_step ih.homes hal hsound m ih.running
    exact ⟨hp, ih.linked.step hal m, ih.tended.step ih.linked hsound.agrees ih.homes hal hl hl' hok m,
      ih.homes.system_step ih.tended hal hl hsound hok m, htot⟩

/-- **The collector never drops a buffered request**, in every run in which it
finds no flow idle that has a request in the channel or in a queue, as an expired
one that is not swept yet, and the registry keeps its leases and the bands of
the flows it provisions: a queue the shard holds before a step and not after it is empty, and the
totals of the bands, the shard and the registry are those of the queues the
shard holds. -/
theorem collected_queues_empty (h : Reaches step KeepsBuffered (State.new cfg n) s) :
    (∀ a s', KeepsBuffered s a → step s a = some s' → ∀ key q, s.registry.topo.HasQueue key q →
      ¬ s'.registry.topo.HasQueue key q → s.controller.queues q = []) ∧
    ExactTotals s.registry.topo s.controller := by
  have hk := keeping_reaches h
  have hreg := keepsLeases_of_keepsBuffered h
  have hsound := Registry.sound_reaches hreg
  obtain ⟨ch, hl⟩ := Registry.ledger_reaches hreg
  refine ⟨fun a s' hok hs key q hq hq' => ?_, hk.totals.exact hsound.agrees hk.homes⟩
  refine List.eq_nil_iff_forall_not_mem.mpr fun i hi => hq' ?_
  have hheld := hk.tended i (.queue hi)
  rw [HasQueue.key_eq hsound.agrees (hk.homes.queue hi) hq] at hheld
  exact (step_moves hs).2.hasQueue_held hheld hl hsound hok hq

end Tended

/-- The collector finds the flow without a lease and is about to remove its queue. -/
def collect (key : FlowKey) : List (Act Unit) :=
  [.gcBegin 9, .gcVisitFlow key, .gcStep 9, .gcStep 9, .gcEndRange, .gcStep 9, .gcStep 9].map .registry

def callReturns : List (Act Unit) := [.finish (), .registry (.call () 2 true), .leave ()]

/-- The time-to-live of a queued request ends; the call returns before the sweep. -/
def expired : List (Act Unit) :=
  connect ⟨⟨"f", 0⟩, 1⟩ ++ distribute ++ [.controller (.call () .send)] ++ enqueue ++
  [.controller (.call () (.expire ⟨.sentinel ctxDeadlineExceeded, .sentinel errTTLExpired⟩)),
    .controller (.call () .ctxDone)] ++
  List.replicate 5 (.controller (.finalize (.call ()))) ++
  [.controller (.call () .next), .controller (.call () .next)] ++ callReturns

/-- A worker of the sweep removes the finalized item from the queue. -/
def sweep (w : Fin 4) : List (Act Unit) :=
  [.tick, .levels [0], .band [⟨"f", 0⟩], .take w, .queue w (.ok 0), .process w [0], .finish].map
    fun a => .controller (.pool .sweep a)

/-- The step the collector takes next removes queue 0, the flow's. -/
def Collects (s s' : State Unit) : Prop :=
  step s (.registry (.gcStep 9)) = some s' ∧ s.registry.topo.HasQueue ⟨"f", 0⟩ 0 ∧
    ¬ s'.registry.topo.HasQueue ⟨"f", 0⟩ 0

/-- It does, and the state after it meets `p`. -/
def collecting (s : State Unit) (p : State Unit → Bool) : Bool :=
  decide (s.registry.topo.HasQueue ⟨"f", 0⟩ 0) && (step s (.registry (.gcStep 9))).any fun s' =>
    decide (¬ s'.registry.topo.HasQueue ⟨"f", 0⟩ 0) && p s'

theorem exists_collects {s : State Unit} {p : State Unit → Bool} (h : collecting s p = true) :
    ∃ s', Collects s s' ∧ p s' = true := by
  obtain ⟨hq, h⟩ := Bool.and_eq_true_iff.mp h
  obtain ⟨s', hs', h⟩ := (Option.any_eq_true ..).mp h
  obtain ⟨hq', hp⟩ := Bool.and_eq_true_iff.mp h
  exact ⟨s', ⟨hs', of_decide_eq_true hq, of_decide_eq_true hq'⟩, hp⟩

/-- The collector removes the queue of a flow whose expired request was swept. -/
theorem collected_queues_empty_swept : ∃ s s' : State Unit,
    Reaches step KeepsBuffered (State.new Registry.smallConfig 1) s ∧ KeepsBuffered s (.registry (.gcStep 9)) ∧
    Collects s s' ∧ s.controller.queues 0 = [] := by
  obtain ⟨s, hs, hok, hp⟩ := exists_of_runIf step KeepsBuffered (State.new Registry.smallConfig 1)
    (expired ++ sweep 0 ++ collect ⟨"f", 0⟩)
    (fun s => KeepsBuffered s (.registry (.gcStep 9)) ∧ collecting s fun _ => true) (by decide +kernel)
  obtain ⟨s', hc, -⟩ := exists_collects hp
  exact ⟨s, s', hs, hok, hc, (collected_queues_empty hs).1 _ s' hok hc.1 _ 0 hc.2.1 hc.2.2⟩

/-! ## A request the collector drops -/

/-- The clock reading of a step. -/
def Act.reading : Act Tid → Option Registry.Time
  | .registry a => a.reading
  | _ => none

/-- **A buffered request is dropped**: the clock never goes backwards, the
queue the collector removes holds the expired request, and every total keeps
its length and its byte size when no queue exists any more. -/
theorem collected_with_item : ∃ (as : List (Act Unit)) (s s' : State Unit),
    (as.filterMap Act.reading).Pairwise (· ≤ ·) ∧ run step (State.new Registry.smallConfig 1) as = some s ∧
    Collects s s' ∧ s.controller.queues 0 = [0] ∧ s'.registry.topo.totalLen = 1 ∧
    s'.registry.topo.totalByteSize = 1 ∧ s'.registry.topo.shard.totalLen = 1 ∧
    (s'.registry.topo.shard.priorityBands 0).map (·.len) = some 1 ∧
    existing s'.registry.topo s'.controller (fun _ => True) = 0 := by
  have hrun : (run step (State.new Registry.smallConfig 1) (expired ++ collect ⟨"f", 0⟩)).any (fun s =>
      decide (s.controller.queues 0 = [0]) && collecting s fun s' => decide (s'.registry.topo.totalLen = 1 ∧
        s'.registry.topo.totalByteSize = 1 ∧ s'.registry.topo.shard.totalLen = 1 ∧
        (s'.registry.topo.shard.priorityBands 0).map (·.len) = some 1 ∧
        existing s'.registry.topo s'.controller (fun _ => True) = 0)) = true := by decide +kernel
  obtain ⟨s, hs, hp⟩ := (Option.any_eq_true ..).mp hrun
  obtain ⟨hq, hp⟩ := Bool.and_eq_true_iff.mp hp
  obtain ⟨s', hc, htot⟩ := exists_collects hp
  exact ⟨expired ++ collect ⟨"f", 0⟩, s, s', by decide +kernel, hs, hc, of_decide_eq_true hq, of_decide_eq_true htot⟩

end InferenceScheduler.FlowControl
