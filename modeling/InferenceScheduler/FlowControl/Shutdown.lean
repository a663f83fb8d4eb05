/-
The processor's shutdown: it sets its flag, drains the enqueue channel once and
evicts every queue. `Submit` and `SubmitOrBlock` check the flag and then send,
so a send can come after the drain (`accepted_after_drain`).

`SubmitsInTime` excludes that send. Without it every accepted item has its final
state when `Run` returns: what the drain leaves is in a queue, and every queue
that holds an item is on its way to a worker of `evictAll` (`Evicting`).
-/
import InferenceScheduler.FlowControl.System

namespace InferenceScheduler.FlowControl

open Registry (Topology)
open Controller (RunPc RunAct PoolId PoolAct PoolPc Worker Agent FinalizePc)

/-! ## Evicting all queues -/

variable {Tid : Type}

/-- Queue `q`, of flow `key`, is on its way to a worker of `evictAll`. -/
inductive Awaits (c : Controller.State Tid) (key : FlowKey) (q : Nat) : Prop
  | levels : (c.pools .evict).pc = .levels → Awaits c key q
  | band {l} : (c.pools .evict).pc = .collect l → key.priority ∈ l → Awaits c key q
  | task {l} : (c.pools .evict).pc = .collect l → key ∈ (c.pools .evict).tasks → Awaits c key q
  | lookup {w} : (c.pools .evict).workers w = .lookup key → Awaits c key q
  | process {w} : (c.pools .evict).workers w = .process q → Awaits c key q

/-- The state of `evictAll` before, during and after it. -/
structure Evicting (t : Topology) (c : Controller.State Tid) : Prop where
  before : c.run.drained = false → (c.pools .evict).pc = .unstarted ∧ (c.pools .evict).tasks = [] ∧
    ∀ w, (c.pools .evict).workers w = .idle
  chan : c.run.drained = true → c.enqueueChan = []
  started : (c.pools .evict).pc ≠ .waiting
  pending : c.run.drained = true → ∀ q, c.queues q ≠ [] → ∃ key, t.HasQueue key q ∧ Awaits c key q
  ended : (c.pools .evict).pc = .stopped → (c.pools .evict).tasks = [] ∧ ∀ w, (c.pools .evict).workers w = .idle
  stopped : c.run.evicted = true → (c.pools .evict).pc = .stopped

variable {t : Topology} {c c' : Controller.State Tid}

theorem Awaits.congr {key : FlowKey} {q : Nat} (h : Awaits c key q) (hp : c'.pools .evict = c.pools .evict) :
    Awaits c' key q := by
  cases h with
  | levels h => exact .levels (hp ▸ h)
  | band h hk => exact .band (hp ▸ h) hk
  | task h hk => exact .task (hp ▸ h) (hp ▸ hk)
  | lookup h => exact .lookup (hp ▸ h)
  | process h => exact .process (hp ▸ h)

theorem Awaits.setWorker {key : FlowKey} {q : Nat} {w : Fin 4} {worker : Worker} (h : Awaits c key q)
    (hp : c'.pools .evict = { c.pools .evict with workers := Function.update (c.pools .evict).workers w worker })
    (hl : (c.pools .evict).workers w ≠ .lookup key) (hq : (c.pools .evict).workers w ≠ .process q) :
    Awaits c' key q := by
  have hother : ∀ {w' : Fin 4} {o : Worker}, (c.pools .evict).workers w ≠ o → (c.pools .evict).workers w' = o →
      (c'.pools .evict).workers w' = o := fun {w' o} hne hw' => by
    rw [hp]
    simp only
    rw [Function.update_of_ne]
    · exact hw'
    · rintro rfl
      exact hne hw'
  cases h with
  | levels h => exact .levels (by rw [hp]; exact h)
  | band h hk => exact .band (by rw [hp]; exact h) hk
  | task h hk => exact .task (by rw [hp]; exact h) (by rw [hp]; exact hk)
  | lookup h => exact .lookup (hother hl h)
  | process h => exact .process (hother hq h)

theorem Evicting.frame (h : Evicting t c) (hrun : c'.run.drained = c.run.drained)
    (hev : c'.run.evicted = c.run.evicted) (hchan : c.run.drained = true → c'.enqueueChan = c.enqueueChan)
    (hqueues : c.run.drained = true → ∀ q, c'.queues q ≠ [] → c.queues q ≠ [])
    (hp : c'.pools .evict = c.pools .evict) : Evicting t c' where
  before := by rw [hrun, hp]; exact h.before
  chan hd := by
    rw [hrun] at hd
    rw [hchan hd]
    exact h.chan hd
  started := by rw [hp]; exact h.started
  pending hd q hq := by
    rw [hrun] at hd
    obtain ⟨key, hk, ha⟩ := h.pending hd q (hqueues hd q hq)
    exact ⟨key, hk, ha.congr hp⟩
  ended := by rw [hp]; exact h.ended
  stopped := by rw [hev, hp]; exact h.stopped

theorem Evicting.empty (h : Evicting t c) (hd : c.run.drained = true) (hs : (c.pools .evict).pc = .stopped) (q : Nat) :
    c.queues q = [] := by
  by_contra hq
  obtain ⟨key, -, ha⟩ := h.pending hd q hq
  obtain ⟨-, hidle⟩ := h.ended hs
  cases ha with
  | levels h | band h | task h => rw [hs] at h; cases h
  | lookup h | process h => rw [hidle] at h; cases h

theorem Evicting.move (h : Evicting t c) (hd : c.run.drained = true) (hns : (c.pools .evict).pc ≠ .stopped)
    (hrun : c'.run = c.run) (hchan : c'.enqueueChan = c.enqueueChan)
    (hstarted : (c'.pools .evict).pc ≠ .waiting)
    (hpending : ∀ q, c'.queues q ≠ [] → c.queues q ≠ [] ∧
      ∀ key, t.HasQueue key q → Awaits c key q → Awaits c' key q)
    (hended : (c'.pools .evict).pc = .stopped → (c'.pools .evict).tasks = [] ∧
      ∀ w, (c'.pools .evict).workers w = .idle) : Evicting t c' where
  before hd' := by rw [hrun, hd] at hd'; cases hd'
  chan _ := hchan.trans (h.chan hd)
  started := hstarted
  pending _ q hq := by
    obtain ⟨hq', hkeep⟩ := hpending q hq
    obtain ⟨key, hk, ha⟩ := h.pending hd q hq'
    exact ⟨key, hk, hkeep key hk ha⟩
  ended := hended
  stopped he := absurd (h.stopped (hrun ▸ he)) hns

theorem Evicting.pool {a : PoolAct} (h : Evicting t c) (ht : t.Agrees) (ha : Answers t c (.pool .evict a))
    (m : Controller.PoolMoves c .evict a c') : Evicting t c' := by
  have hphase : c.run.drained = true ∧ (c.pools .evict).pc ≠ .stopped := by
    have hidle : (c.run.drained = false ∨ (c.pools .evict).pc = .stopped) →
        ∀ w, (c.pools .evict).workers w = .idle := fun hor =>
      hor.elim (fun hd => (h.before hd).2.2) fun hs => (h.ended hs).2
    have hpc : (c.run.drained = false ∨ (c.pools .evict).pc = .stopped) →
        (c.pools .evict).pc = .unstarted ∨ (c.pools .evict).pc = .stopped := fun hor =>
      hor.imp_left fun hd => (h.before hd).1
    by_contra hnot
    have hor : c.run.drained = false ∨ (c.pools .evict).pc = .stopped := by
      by_cases hd : c.run.drained = true
      · exact .inr (by_contra fun hs => hnot ⟨hd, hs⟩)
      · exact .inl (by simpa using hd)
    cases m with
    | goto hm hgo => rcases hpc hor with h | h <;> rw [h] at hm <;> subst hm <;> simp at hgo
    | band hm | take hm => rcases hpc hor with h | h <;> rw [h] at hm <;> cases hm
    | queue hw | noQueue hw | drain _ hw => rw [hidle hor] at hw; cases hw
    | cleanup hp => cases hp
  obtain ⟨hd, hns⟩ := hphase
  cases m with
  | @goto a pc pc' hpc hgo =>
    rcases hgo with ⟨-, rfl, -⟩ | ⟨-, rfl, -⟩ | ⟨ps, rfl, rfl, rfl⟩ | ⟨-, rfl, htasks, hidle, rfl⟩
    · exact absurd hpc h.started
    · exact absurd hpc h.started
    · refine h.move hd hns rfl rfl (by simp) (fun q hq => ⟨hq, fun key hk ha' => ?_⟩) (by simp)
      refine .band (l := ps) (by simp) ?_
      rw [ha.levels rfl]
      exact mem_levels ht hk
    · have hw : ∀ w, (c.pools .evict).workers w = .idle := fun w => by
        have := hidle w
        cases hc : (c.pools .evict).workers w <;> simp_all [Worker.isIdle]
      refine h.move hd hns rfl rfl (by simp) (fun q hq => ⟨hq, fun key hk ha' => ?_⟩) fun _ => by simpa using ⟨htasks, hw⟩
      cases ha' with
      | levels hp | band hp hk | task hp hk => simp_all
      | lookup hw' | process hw' => rw [hw] at hw'; cases hw'
  | @band p ps keys hpc =>
    have hkeys := ha.band rfl hpc
    refine h.move hd hns rfl rfl (by simp) (fun q hq => ⟨hq, fun key hk ha' => ?_⟩) (by simp)
    cases ha' with
    | levels hp => rw [hpc] at hp; cases hp
    | band hp hmem =>
      rw [hpc] at hp
      cases hp
      rcases List.mem_cons.mp hmem with rfl | hmem
      · have hmem := hkeys.mem_iff.mpr (mem_bandKeys ht hk)
        exact .task (l := ps) (by simp) (by simp [hmem])
      · exact .band (l := ps) (by simp) hmem
    | task hp hmem => exact .task (l := ps) (by simp) (by simp [hmem])
    | lookup hw => exact .lookup (by simpa using hw)
    | process hw => exact .process (by simpa using hw)
  | @take w key tasks hpc hw htasks =>
    refine h.move hd hns rfl rfl (by simp [hpc]) (fun q hq => ⟨hq, fun key' hk ha' => ?_⟩) (by simp [hpc])
    by_cases hkey : key' = key
    · exact .lookup (w := w) (by simp [hkey])
    · -- seen with the old tasks, only the worker moves; this queue's task stays
      have hset : Awaits (c.setWorker .evict w (.lookup key)) key' q :=
        ha'.setWorker (Controller.State.setWorker_pools ..) (by simp [hw]) (by simp [hw])
      cases hset with
      | levels hp | band hp hmem => simp_all
      | task hp hmem =>
        simp only [Controller.State.setWorker_pools, htasks, List.mem_cons, hkey, false_or] at hmem
        exact .task (l := []) (by simpa using hpc) (by simpa using hmem)
      | lookup hw' => exact .lookup (by simpa using hw')
      | process hw' => exact .process (by simpa using hw')
  | @queue w key q hw =>
    have hkq : t.HasQueue key q := Topology.managedQueue_ok_iff.mp (ha.poolQueue rfl hw).symm
    refine h.move hd hns rfl rfl (by simpa using h.started) (fun q' hq => ⟨hq, fun key' hk ha' => ?_⟩) ?_
    · by_cases hkey : key' = key
      · subst hkey
        exact .process (w := w) (by simp [HasQueue.queue_eq hk hkq])
      · exact ha'.setWorker (Controller.State.setWorker_pools ..) (by simpa [hw] using Ne.symm hkey) (by simp [hw])
    · exact fun hs => absurd (by simpa using hs) hns
  | @noQueue w key err hw =>
    have hno := ha.poolQueue rfl hw
    refine h.move hd hns rfl rfl (by simpa using h.started) (fun q' hq => ⟨hq, fun key' hk ha' => ?_⟩) ?_
    · have hkey : key' ≠ key := by
        rintro rfl
        rw [Topology.managedQueue_ok_iff.mpr hk] at hno
        cases hno
      exact ha'.setWorker (Controller.State.setWorker_pools ..) (by simpa [hw] using Ne.symm hkey) (by simp [hw])
    · exact fun hs => absurd (by simpa using hs) hns
  | cleanup hp => cases hp
  | @drain w q removed _ hw =>
    refine h.move hd hns rfl rfl (by simpa [Controller.State.setQueue] using h.started) (fun q' hq => ?_) ?_
    · have hne : q' ≠ q := by
        rintro rfl
        simp [Controller.State.setQueue, Controller.State.setWorker, Controller.State.setPool] at hq
      refine ⟨by simpa [Controller.State.setQueue, Controller.State.setWorker, Controller.State.setPool, hne] using hq, fun key hk ha' => ?_⟩
      have hset : Awaits (c.setQueue q []) key q' := ha'.congr rfl
      exact hset.setWorker (Controller.State.setWorker_pools ..)
        (by simp [Controller.State.setQueue, hw]) (by simpa [Controller.State.setQueue, hw] using Ne.symm hne)
    · exact fun hs => absurd (by simpa [Controller.State.setQueue] using hs) hns

theorem Evicting.step [DecidableEq Tid] {b : Controller.Act Tid} (h : Evicting t c) (ht : t.Agrees) (hh : Homes t c)
    (hans : Answers t c b) (hsend : ∀ u, b = .call u .send → c.run.drained = false)
    (m : Controller.Moves c b c') : Evicting t c' := by
  cases m with
  | stop | cancel => exact h.frame rfl rfl (fun _ => rfl) (fun _ _ => id) rfl
  | call m =>
    cases m with
    | @candidates a r hpc =>
      have hs' : ∀ c₁ : Controller.State Tid, c₁ = c.newItem r ∨ c₁ = (c.newItem r).startWorker →
          c₁.run.drained = c.run.drained ∧ c₁.run.evicted = c.run.evicted ∧ c₁.enqueueChan = c.enqueueChan ∧
            c₁.queues = c.queues ∧ c₁.pools .evict = c.pools .evict := by
        rintro _ (rfl | rfl)
        · exact ⟨rfl, rfl, rfl, rfl, rfl⟩
        · unfold Controller.State.startWorker
          split
          · rename_i hrun
            have hrun' : c.run = .unstarted := hrun
            rw [hrun']
            exact ⟨rfl, rfl, rfl, rfl, rfl⟩
          · exact ⟨rfl, rfl, rfl, rfl, rfl⟩
      obtain ⟨hd, he, hchan, hq, hp⟩ :=
        hs' (if a = .noShards then c.newItem r else (c.newItem r).startWorker) (by split <;> simp)
      exact h.frame hd he (fun _ => hchan) (fun _ q hne => by rwa [← hq]) hp
    | sendBuffer =>
      have hd := hsend _ rfl
      exact h.frame rfl rfl (fun hd' => by simp [hd] at hd') (fun _ _ => id) rfl
    | sendRun _ _ hrun | sendDrain _ hrun =>
      exact h.frame (by rw [hrun]; rfl) (by rw [hrun]; rfl) (fun _ => rfl) (fun _ _ => id) rfl
    | goto | expire | receive => exact h.frame rfl rfl (fun _ => rfl) (fun _ _ => id) rfl
  | run m =>
    cases m with
    | @goto a pc pc' hpc hgo =>
      cases hgo with
      | evicted hs =>
        have hd : c.run.drained = true := by rw [hpc]; rfl
        refine ⟨nofun, fun _ => h.chan hd, h.started, fun _ q hq => ?_, h.ended, fun _ => hs⟩
        obtain ⟨key, hk, ha⟩ := h.pending hd q hq
        exact ⟨key, hk, ha.congr rfl⟩
      | _ => exact h.frame (by rw [hpc]; rfl) (by rw [hpc]; rfl) (fun _ => rfl) (fun _ _ => id) rfl
    | receive hpc | drain hpc =>
      have hd : c.run.drained = false := by rw [hpc]; rfl
      exact h.frame (by rw [hpc]; rfl) (by rw [hpc]; rfl) (fun hd' => by simp [hd] at hd') (fun _ _ => id) rfl
    | add hpc | remove hpc =>
      have hd : c.run.drained = false := by rw [hpc]; rfl
      exact h.frame (by rw [hpc]; rfl) (by rw [hpc]; rfl) (fun _ => rfl) (fun hd' => by simp [hd] at hd') rfl
    | flag hpc => exact h.frame (by rw [hpc]; rfl) (by rw [hpc]; rfl) (fun _ => rfl) (fun _ _ => id) rfl
    | drained hpc hchan =>
      refine ⟨nofun, fun _ => hchan, nofun, fun _ q hq => ?_, nofun, nofun⟩
      obtain ⟨i, hi⟩ := List.exists_mem_of_ne_nil _ hq
      exact ⟨_, hh.queue hi, .levels rfl⟩
  | @pool p a _ m =>
    cases p with
    | evict => exact h.pool ht hans m
    | sweep =>
      cases m with
      | @cleanup w q removed =>
        refine h.frame rfl rfl (fun _ => rfl) (fun _ q' hq => ?_) rfl
        change Function.update c.queues q _ q' ≠ [] at hq
        rw [Function.update_apply] at hq
        split at hq
        · subst q'
          rintro he
          simp [he] at hq
        · exact hq
      | drain hp => cases hp
      | goto | band | take | queue | noQueue => exact h.frame rfl rfl (fun _ => rfl) (fun _ _ => id) rfl
  | @finalize g i pc item next hf hstep =>
    cases g with
    | call u => exact h.frame rfl rfl (fun _ => rfl) (fun _ _ => id) rfl
    | run =>
      simp only [Controller.State.finalizing] at hf
      refine h.frame ?_ ?_ (fun _ => rfl) (fun _ _ => id) rfl
      · change (c.run.resume next).drained = _
        cases hpc : c.run <;> rw [hpc] at hf <;> cases hf <;> cases next <;> rfl
      · change (c.run.resume next).evicted = _
        cases hpc : c.run <;> rw [hpc] at hf <;> cases hf <;> cases next <;> rfl
    | evictor w =>
      simp only [Controller.State.finalizing] at hf
      have hw : (c.pools .evict).workers w ≠ .idle := fun hw => by rw [hw] at hf; cases hf
      have hd : c.run.drained = true := by
        by_contra hd
        exact hw ((h.before (by simpa using hd)).2.2 w)
      have hns : (c.pools .evict).pc ≠ .stopped := fun hs => hw ((h.ended hs).2 w)
      refine h.move hd hns rfl rfl (by simpa [Controller.State.resume, Controller.State.setItem] using h.started)
        (fun q hq => ⟨hq, fun key hk ha => ?_⟩) ?_
      · have hset : Awaits (c.setItem i item) key q := ha.congr rfl
        refine hset.setWorker (Controller.State.setWorker_pools ..) ?_ ?_
        · intro hl
          rw [show (c.pools .evict).workers w = .lookup key from hl] at hf
          cases hf
        · intro hl
          rw [show (c.pools .evict).workers w = .process q from hl] at hf
          cases hf
      · intro hs
        exact absurd (by simpa [Controller.State.resume, Controller.State.setItem] using hs) hns

/-! ## No accepted item is orphaned -/

/-- Where `Run` stands when a step sends an item on the channel. -/
def State.sending (s : State Tid) : Act Tid → Option RunPc
  | .controller (.call _ .send) => some s.controller.run
  | _ => none

/-- No item is sent on the channel after the drain loop has ended. -/
def SubmitsInTime (s : State Tid) (a : Act Tid) : Prop := ∀ pc ∈ s.sending a, pc.drained = false

def ShutsDown (s : State Tid) (a : Act Tid) : Prop := WithoutGc s a ∧ SubmitsInTime s a

instance (s : State Tid) (a : Act Tid) : Decidable (SubmitsInTime s a) :=
  inferInstanceAs (Decidable (∀ pc ∈ s.sending a, _))

instance (s : State Tid) (a : Act Tid) : Decidable (ShutsDown s a) := inferInstanceAs (Decidable (_ ∧ _))

section Orphans

variable [DecidableEq Tid] {s s' : State Tid}

/-- The items are in the shard's queues, and `evictAll` is on its way to them. -/
def Closing (s : State Tid) : Prop :=
  Homes s.registry.topo s.controller ∧ Evicting s.registry.topo s.controller

omit [DecidableEq Tid] in
theorem Evicting.mono {t t' : Topology} {c : Controller.State Tid} (h : Evicting t c)
    (ht : ∀ k q, t.HasQueue k q → t'.HasQueue k q) : Evicting t' c :=
  { h with
    pending := fun hd q hq => by
      obtain ⟨key, hk, ha⟩ := h.pending hd q hq
      exact ⟨key, ht _ _ hk, ha⟩ }

variable {cfg : Registry.InitialConfig} {n : Nat}

theorem closing_reaches (h : Reaches step ShutsDown (State.new cfg n) s) : Closing s := by
  induction h with
  | init =>
    refine ⟨⟨nofun, nofun⟩, ⟨fun _ => ⟨rfl, rfl, fun _ => rfl⟩, nofun, nofun, nofun, nofun, nofun⟩⟩
  | @next s a s' hr hok hs ih =>
    obtain ⟨hh, he⟩ := ih
    have hreg : Reaches Registry.step Any (Registry.State.new cfg) s.registry :=
      registry_reaches (fun _ _ _ _ _ => trivial) hr
    have hsound := Registry.sound_reaches hreg
    have hm := (step_moves hs).2
    have hctl : Homes s.registry.topo s'.controller ∧ Evicting s.registry.topo s'.controller := by
      rcases hm.controller_step with heq | ⟨b, hb, hc, hans⟩
      · rw [heq]
        exact ⟨hh, he⟩
      · have hmc := Controller.step_moves hc
        refine ⟨hh.step (Controller.allocated_reaches (controller_reaches hr)) hans hmc,
          he.step hsound.agrees hh hans (fun u hu => ?_) hmc⟩
        have ha : a = .controller (.call u .send) := controllerAct_call (x := .send) (hu ▸ hb)
        exact hok.2 _ (by rw [ha]; rfl)
    exact ⟨hctl.1.mono fun k q => hm.hasQueue hsound hok.1, hctl.2.mono fun k q => hm.hasQueue hsound hok.1⟩

/-- **No accepted item is orphaned by shutdown**, in every run in which no
item is sent on the channel after the drain loop has ended: when `Run` has
returned, every item for which `Submit` or `SubmitOrBlock` returned nil has
its final state. -/
theorem accepted_items_finalized (h : Reaches step ShutsDown (State.new cfg n) s)
    (hrun : s.controller.run = .returned) (i : Nat) (hacc : (s.controller.items i).accepted = true) :
    (s.controller.items i).finalState.isSome = true := by
  obtain ⟨-, he⟩ := closing_reaches h
  have hd : s.controller.run.drained = true := by rw [hrun]; rfl
  have hs := he.stopped (by rw [hrun]; rfl)
  cases hfs : (s.controller.items i).finalState with
  | some fs => rfl
  | none =>
    cases Controller.placed_reaches (controller_reaches h) i hacc hfs with
    | chan hi => rw [he.chan hd] at hi; cases hi
    | run hi => rw [hrun] at hi; cases hi
    | queue hi => rw [he.empty hd hs] at hi; cases hi
    | worker hi => rw [(he.ended hs).2] at hi; cases hi

/-- `Run` shuts down, up to its first worker's `Drain` of the queue of the flow. -/
def shutDown (key : FlowKey) : List (Act Unit) :=
  [.controller .stop, .controller .cancel, .controller (.run .done), .controller (.run .next),
    .controller (.run .next)] ++
  [.levels [], .band [key], .take 0, .queue 0 (.ok 0), .process 0 []].map fun a => .controller (.pool .evict a)

/-- The end of the shutdown. -/
def runReturns : List (Act Unit) :=
  [.controller (.pool .evict .finish), .controller (.run .next), .controller (.pool .sweep .done),
    .controller (.run .next)]

/-- The one item of the run is accepted and has been evicted. -/
theorem accepted_items_finalized_queued : ∃ s : State Unit, Reaches step ShutsDown (State.new Registry.smallConfig 1) s ∧
    s.controller.run = .returned ∧ (s.controller.items 0).accepted = true ∧
    (s.controller.items 0).finalState.isSome = true := by
  obtain ⟨s, hs, hret, hacc⟩ := exists_of_runIf step ShutsDown (State.new Registry.smallConfig 1)
    (connect ⟨⟨"f", 0⟩, 1⟩ ++ distribute ++ [.controller (.call () .send)] ++ enqueue ++ shutDown ⟨"f", 0⟩ ++
      List.replicate 4 (.controller (.finalize (.evictor 0))) ++ runReturns)
    (fun s => s.controller.run.isReturned ∧ (s.controller.items 0).accepted) (by decide +kernel)
  have hrun := RunPc.isReturned_iff.mp hret
  exact ⟨s, hs, hrun, hacc, accepted_items_finalized hs hrun 0 hacc⟩

/-! ## An orphaned item -/

/-- The call is in `Submit` or `SubmitOrBlock`. -/
def submitting : Controller.CallPc → Bool
  | .submit _ | .submitSelect _ | .block _ | .blockSelect _ => true
  | _ => false

/-- **An orphaned item**: `Submit` has checked the flag when the processor
shuts down, and sends when the drain loop has ended. `Run` has returned, so
has `Submit`, and the item it accepted has no final state. -/
theorem accepted_after_drain : ∃ s : State Unit, Reaches step WithoutGc (State.new Registry.smallConfig 1) s ∧
    s.controller.run = .returned ∧ (∀ t, submitting (s.controller.calls t) = false) ∧
    (s.controller.items 0).accepted = true ∧ (s.controller.items 0).finalState.isNone = true := by
  obtain ⟨s, hs, hp⟩ := exists_of_runIf step WithoutGc (State.new Registry.smallConfig 1)
    (connect ⟨⟨"f", 0⟩, 1⟩ ++ distribute ++ shutDown ⟨"f", 0⟩ ++ runReturns ++ [.controller (.call () .send)])
    (fun s => s.controller.run.isReturned ∧ (∀ t, submitting (s.controller.calls t) = false) ∧
      (s.controller.items 0).accepted ∧ (s.controller.items 0).finalState.isNone) (by decide +kernel)
  exact ⟨s, hs, RunPc.isReturned_iff.mp hp.1, hp.2⟩

end Orphans

end InferenceScheduler.FlowControl
