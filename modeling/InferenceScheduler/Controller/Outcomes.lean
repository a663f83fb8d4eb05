/-
What `EnqueueAndWait` returns. `Attempts` relates every call to the item of its
current attempt: an item belongs to one call, a call that has left its wait
carries the state its item published, and an attempt is given up only for a
draining shard.
-/
import InferenceScheduler.Controller.Finalization

namespace InferenceScheduler.Controller

open Function (update update_apply update_of_ne update_self)

variable {Tid : Type}

/-- The item has published its final state. -/
def Settled (item : FlowItem Tid) (fs : FinalState) : Prop :=
  item.finalState = some fs ∧ item.sent = [fs]

/-- The item's final state asks its call to try again. -/
def Retired (item : FlowItem Tid) : Prop :=
  ∃ fs, item.finalState = some fs ∧ fs.err.any (·.is errShardDraining) = true

/-- What a call knows of its item where it stands. -/
def CallPc.Ok (items : Nat → FlowItem Tid) : CallPc → Prop
  | .submit i | .submitSelect i | .block i | .blockSelect i | .await i => (items i).received = 0
  | .failed i | .expired i => ∃ g, (items i).once = .done g
  | .decide i fs | .leaving (some i) fs | .returned (some i) fs => Settled (items i) fs
  | .leaving none fs | .returned none fs => Paired fs
  | .panicked => False
  | .idle | .connecting _ | .lifecycle _ | .candidates _ | .failing _ _ | .expiring _ _ => True

structure Attempts (s : State Tid) : Prop where
  ok : ∀ t, (s.calls t).Ok s.items
  own : ∀ {t t' i}, (s.calls t).item = some i → (s.calls t').item = some i → t = t'
  retired : ∀ {i}, i < s.nextItem → (∃ t, (s.calls t).item = some i) ∨ Retired (s.items i)

/-- A step's change of an item, seen from the call it belongs to. -/
structure Steady (item item' : FlowItem Tid) : Prop where
  received : item'.received = item.received
  done : ∀ {g}, item.once = .done g → item'.once = .done g
  finalState : ∀ {fs}, item.finalState = some fs → item'.finalState = some fs
  settled : ∀ {fs}, Settled item fs → Settled item' fs

variable {item : FlowItem Tid}

theorem Steady.of_inert {item' : FlowItem Tid} (h : Inert item item') (hr : item'.received = item.received) :
    Steady item item' :=
  ⟨hr, fun ho => h.once.trans ho, fun hf => h.finalState.trans hf,
    fun hs => ⟨h.finalState.trans hs.1, h.sent.trans hs.2⟩⟩

theorem Steady.refl (item : FlowItem Tid) : Steady item item := .of_inert (.refl _) rfl

theorem Retired.mono {item' : FlowItem Tid} (h : Retired item) (hs : Steady item item') : Retired item' := by
  obtain ⟨fs, hfs, hd⟩ := h
  exact ⟨fs, hs.finalState hfs, hd⟩

theorem FinalizeMoves.steady {s : State Tid} {a : Agent Tid} {i : Nat} {pc : FinalizePc}
    {next : Option FinalizePc} (h : FinalizeMoves a (s.items i) pc item next) (hs : Protocol s)
    (hf : s.finalizing a = some (i, pc)) : Steady (s.items i) item := by
  cases h with
  | enterCause ho | enterOutcome ho =>
    obtain ⟨hfs, -⟩ := hs.fresh ho
    refine ⟨rfl, fun h => ?_, id, id⟩
    rw [ho] at h
    cases h
  | found | load => exact .refl _
  | store =>
    obtain ⟨ho, hfs, hsent, -⟩ := hs.entered hf rfl
    exact ⟨rfl, id, fun h => by simp [hfs] at h, fun ⟨_, h⟩ => by simp [hsent] at h⟩
  | send =>
    obtain ⟨ho, hfs, hsent, -⟩ := hs.entered hf rfl
    exact ⟨rfl, id, id, fun ⟨_, h⟩ => by simp [hsent] at h⟩
  | close =>
    obtain ⟨ho, -⟩ := hs.entered hf rfl
    refine ⟨rfl, fun h => ?_, id, id⟩
    rw [ho] at h
    cases h

theorem CallPc.Ok.mono {items items' : Nat → FlowItem Tid} {pc : CallPc} (h : pc.Ok items)
    (hs : ∀ i ∈ pc.item, Steady (items i) (items' i)) : pc.Ok items' := by
  cases pc with
  | submit i | submitSelect i | block i | blockSelect i | await i => exact (hs i rfl).received.trans h
  | failed i | expired i => exact h.imp fun _ => (hs i rfl).done
  | decide i fs => exact (hs i rfl).settled h
  | leaving src fs | returned src fs =>
    cases src with
    | none => exact h
    | some i => exact (hs i rfl).settled h
  | panicked => exact h
  | idle | connecting | lifecycle | candidates | failing | expiring => trivial

theorem finish_of_paired {fs : FinalState} (h : Paired fs) : finish fs = fs := by
  unfold finish
  split
  · exact if_neg h.finalized
  · rfl

theorem finish_refused (err : GoError) : Paired (finish ⟨.notYetFinalized, some err⟩) := .reject rfl

section Attempts

variable {s s' : State Tid}

theorem Protocol.sent (h : Protocol s) (i : Nat) :
    (s.items i).sent = [] ∧ (s.items i).closed = false ∨ ∃ fs, Settled (s.items i) fs := by
  cases ho : (s.items i).once with
  | fresh => exact .inl (h.fresh ho).2
  | running a =>
    obtain ⟨pc, hf, he⟩ := h.running ho
    obtain ⟨-, hm⟩ := h.entered hf he
    cases pc with
    | enter => cases he
    | load | store | send => exact .inl hm.2
    | close =>
      obtain ⟨fs, hfs, hsent, -⟩ := hm
      exact .inr ⟨fs, hfs, hsent⟩
  | done a => exact .inr (h.done ho)

variable {i : Nat}

theorem Protocol.settled_of_done (h : Protocol s) {g : Agent Tid} {fs : FinalState}
    (ho : (s.items i).once = .done g) (hfs : (s.items i).finalState = some fs) : Settled (s.items i) fs := by
  obtain ⟨fs', hfs', hsent⟩ := h.done ho
  rw [hfs] at hfs'
  cases hfs'
  exact ⟨hfs, hsent⟩

theorem Protocol.paired (h : Protocol s) {fs : FinalState} (hs : Settled (s.items i) fs) : Paired fs := by
  obtain ⟨a, -, hj⟩ := h.stored hs.1
  exact hj.paired

variable {pc : CallPc} {t : Tid}

theorem CallGoto.attempts {a : CallAct} {pc' : CallPc} (h : CallGoto s t a pc pc') (hp : Protocol s)
    (hok : pc.Ok s.items) : pc'.Ok s.items ∧
      (pc'.item = pc.item ∨ pc'.item = none ∧ ∀ i, pc.item = some i → Retired (s.items i)) := by
  cases h with
  | start | connected | distribute | ctxFailed | expiring => exact ⟨trivial, .inl rfl⟩
  | refused => exact ⟨finish_refused _, .inl rfl⟩
  | stopped => exact ⟨.reject rfl, .inl rfl⟩
  | submitClosed | submitOpen | busy | blockOpen | decided => exact ⟨hok, .inl rfl⟩
  | notRunning h =>
    refine ⟨trivial, .inl ?_⟩
    rcases h with ⟨-, rfl, -⟩ | ⟨-, rfl, -⟩ <;> rfl
  | failed hfs | expired hfs =>
    obtain ⟨g, ho⟩ := hok
    exact ⟨hp.settled_of_done ho hfs, .inl rfl⟩
  | @retry i fs hd =>
    refine ⟨trivial, .inr ⟨rfl, fun j hj => ?_⟩⟩
    cases hj
    exact ⟨fs, hok.1, hd⟩
  | @leave src fs =>
    refine ⟨?_, .inl rfl⟩
    cases src with
    | none =>
      rw [finish_of_paired hok]
      exact hok
    | some i =>
      rw [finish_of_paired (hp.paired hok)]
      exact hok
  | @panic a i pc h =>
    exfalso
    rcases h with ⟨rfl | rfl, hnone⟩ | ⟨rfl, hle, hc⟩
    · obtain ⟨g, ho⟩ := hok
      obtain ⟨fs, hfs, -⟩ := hp.done ho
      simp [hnone] at hfs
    · obtain ⟨g, ho⟩ := hok
      obtain ⟨fs, hfs, -⟩ := hp.done ho
      simp [hnone] at hfs
    · have hzero : (s.items i).received = 0 := hok
      rcases hp.sent i with ⟨-, hc'⟩ | ⟨fs, -, hsent⟩
      · simp [hc] at hc'
      · simp [hsent, hzero] at hle

theorem Attempts.of_ok (h : Attempts s) (hcalls : s'.calls = s.calls) (hnext : s'.nextItem = s.nextItem)
    (hok : ∀ t, (s.calls t).Ok s'.items) (hret : ∀ i, Retired (s.items i) → Retired (s'.items i)) :
    Attempts s' := by
  refine ⟨fun t => hcalls ▸ hok t, ?_, fun {i} hi => ?_⟩
  · rw [hcalls]
    exact h.own
  · rw [hcalls]
    exact (h.retired (hnext ▸ hi)).imp_right (hret i)

theorem Attempts.steady (h : Attempts s) (hcalls : s'.calls = s.calls) (hnext : s'.nextItem = s.nextItem)
    (hitems : ∀ i, Steady (s.items i) (s'.items i)) : Attempts s' :=
  h.of_ok hcalls hnext (fun t => (h.ok t).mono fun i _ => hitems i) fun i hr => hr.mono (hitems i)

theorem Steady.update {items : Nat → FlowItem Tid} {item : FlowItem Tid} (h : Steady (items i) item)
    (j : Nat) : Steady (items j) (update items i item j) := by
  rw [update_apply]
  split
  · subst j; exact h
  · exact .refl _

variable [DecidableEq Tid]

theorem Attempts.goto (h : Attempts s) (hok : pc.Ok s.items) (hitem : pc.item = (s.calls t).item ∨
      pc.item = none ∧ ∀ i, (s.calls t).item = some i → Retired (s.items i)) : Attempts (s.goto t pc) := by
  have hsub : ∀ {t' i}, ((s.goto t pc).calls t').item = some i → (s.calls t').item = some i := fun {t' i} hi => by
    simp only [State.goto, update_apply] at hi
    split at hi
    · subst t'
      rcases hitem with he | ⟨he, -⟩
      · exact he ▸ hi
      · rw [he] at hi; cases hi
    · exact hi
  refine ⟨fun t' => ?_, fun hi hi' => h.own (hsub hi) (hsub hi'), fun {i} hlt => ?_⟩
  · simp only [State.goto, update_apply]
    split
    · exact hok
    · exact h.ok t'
  · rcases h.retired hlt with ⟨t', hi⟩ | hr
    · by_cases ht : t' = t
      · subst ht
        rcases hitem with he | ⟨-, hret⟩
        · refine .inl ⟨t', ?_⟩
          simp only [State.goto, update_self]
          exact he.trans hi
        · exact .inr (hret i hi)
      · refine .inl ⟨t', ?_⟩
        simp only [State.goto]
        rw [update_of_ne ht]
        exact hi
    · exact .inr hr

theorem Attempts.accept (h : Attempts s) (hpc : s.calls t = pc)
    (hsel : pc = .submitSelect i ∨ pc = .blockSelect i) (hcalls : s'.calls = s.calls)
    (hnext : s'.nextItem = s.nextItem)
    (hitems : s'.items = update s.items i { s.items i with accepted := true }) :
    Attempts (s'.goto t (.await i)) := by
  have hwait : (s.items i).received = 0 ∧ (s.calls t).item = some i := by
    have hok := h.ok t
    rcases hsel with rfl | rfl <;> rw [hpc] at hok ⊢ <;> exact ⟨hok, rfl⟩
  have hs' : Attempts s' := h.steady hcalls hnext fun j => by
    rw [hitems]
    refine Steady.update ?_ j
    exact .of_inert ⟨rfl, rfl, rfl, rfl, id⟩ rfl
  refine hs'.goto ?_ (.inl (by rw [hcalls, hwait.2]; rfl))
  simp only [CallPc.Ok, hitems, update_self]
  exact hwait.1

theorem Attempts.newItem {r : Request} (h : Attempts s) (hal : Allocated s)
    (ht : (s.calls t).item = none) (hpc : pc.item = some s.nextItem) (hok : pc.Ok (s.newItem r).items)
    (hcalls : s'.calls = s.calls) (hitems : s'.items = (s.newItem r).items)
    (hnext : s'.nextItem = s.nextItem + 1) : Attempts (s'.goto t pc) := by
  have hold : ∀ {t' i}, (s.calls t').item = some i → i < s.nextItem := fun hi => hal.lt _ (.call hi)
  have hkeep : ∀ {i}, i < s.nextItem → (s.newItem r).items i = s.items i := fun hi =>
    update_of_ne (Nat.ne_of_lt hi) ..
  have hview : ∀ t', ((s'.goto t pc).calls t').item = if t' = t then some s.nextItem else (s.calls t').item := by
    intro t'
    simp only [State.goto, update_apply, hcalls]
    split
    · exact hpc
    · rfl
  refine ⟨fun t' => ?_, fun {t₁ t₂ i} h₁ h₂ => ?_, fun {i} hlt => ?_⟩
  · simp only [State.goto, update_apply, hcalls, hitems]
    split
    · exact hok
    · refine (h.ok t').mono fun i hi => ?_
      rw [hkeep (hold hi)]
      exact .refl _
  · rw [hview] at h₁ h₂
    split at h₁ <;> split at h₂
    · simp_all
    · have := hold h₂
      simp_all
    · have := hold h₁
      simp_all
    · exact h.own h₁ h₂
  · by_cases hi : i = s.nextItem
    · exact .inl ⟨t, by rw [hview, if_pos rfl, hi]⟩
    · have hlt' : i < s.nextItem := by
        change i < s'.nextItem at hlt
        omega
      rcases h.retired hlt' with ⟨t', ht'⟩ | hr
      · refine .inl ⟨t', ?_⟩
        rw [hview, if_neg]
        · exact ht'
        · rintro rfl
          rw [ht] at ht'
          cases ht'
      · right
        change Retired (s'.items i)
        rw [hitems, hkeep hlt']
        exact hr

theorem CallMoves.attempts {a : CallAct} (h : CallMoves s t a s') (hal : Allocated s) (hp : Protocol s)
    (ha : Attempts s) : Attempts s' := by
  cases h with
  | @goto a pc pc' hpc hgo =>
    obtain ⟨hok, hitem⟩ := hgo.attempts hp (hpc ▸ ha.ok t)
    exact ha.goto hok (hpc ▸ hitem)
  | expire => exact ha.steady rfl rfl fun _ => .refl _
  | @candidates c r hpc =>
    have hs' : (if c = .noShards then s.newItem r else (s.newItem r).startWorker).calls = s.calls ∧
        (if c = .noShards then s.newItem r else (s.newItem r).startWorker).items = (s.newItem r).items ∧
        (if c = .noShards then s.newItem r else (s.newItem r).startWorker).nextItem = s.nextItem + 1 := by
      split
      · exact ⟨rfl, rfl, rfl⟩
      · refine ⟨?_, State.startWorker_items _, State.startWorker_nextItem _⟩
        unfold State.startWorker
        split <;> rfl
    refine ha.newItem (r := r) hal (by rw [hpc]; rfl) ?_ ?_ hs'.1 hs'.2.1 hs'.2.2
    · split <;> rfl
    · split
      · simp [CallPc.Ok, State.newItem, State.setItem]
      · trivial
  | sendBuffer hpc hsel | sendRun hpc hsel => exact ha.accept hpc hsel rfl rfl rfl
  | sendDrain hpc => exact ha.accept hpc (.inr rfl) rfl rfl rfl
  | @receive i fs hpc hfs =>
    -- only the call the item belongs to counts what it received
    have hzero : (s.items i).received = 0 := by
      have hok := ha.ok t
      rw [hpc] at hok
      exact hok
    have hset : Settled (s.items i) fs := by
      rw [hzero] at hfs
      rcases hp.sent i with ⟨hsent, -⟩ | ⟨fs', hset⟩
      · simp [hsent] at hfs
      · obtain rfl : fs' = fs := by simpa [hset.2] using hfs
        exact hset
    have hgo : Attempts (s.goto t (.decide i fs)) := ha.goto hset (.inl (by rw [hpc]; rfl))
    refine hgo.of_ok rfl rfl (fun t' => ?_) fun j => ?_
    · by_cases ht : t' = t
      · subst ht
        simp only [State.goto, update_self, State.setItem, CallPc.Ok]
        exact hset
      · refine (hgo.ok t').mono fun j hj => ?_
        have hne : j ≠ i := by
          rintro rfl
          refine ht (hgo.own hj ?_)
          simp only [State.goto, update_self]
          rfl
        simp only [State.goto, State.setItem]
        rw [update_of_ne hne]
        exact .refl _
    · simp only [State.goto, State.setItem, update_apply]
      split
      · subst j; exact id
      · exact id

theorem Attempts.step {a : Act Tid} (ha : Attempts s) (hal : Allocated s) (hp : Protocol s) (h : Moves s a s') :
    Attempts s' := by
  cases h with
  | stop | cancel => exact ha.steady rfl rfl fun _ => .refl _
  | call h => exact h.attempts hal hp ha
  | run h =>
    cases h with
    | goto | receive | flag | drain | drained => exact ha.steady rfl rfl fun _ => .refl _
    | add => exact ha.steady rfl rfl (Steady.update (.of_inert ⟨rfl, rfl, rfl, rfl, id⟩ rfl))
    | remove => exact ha.steady rfl rfl (Steady.update (.of_inert ⟨rfl, rfl, rfl, rfl, fun _ => rfl⟩ rfl))
  | pool h =>
    have hitems := h.items
    exact ha.steady (by cases h <;> rfl) hitems.2 fun i => by rw [hitems.1]; exact .refl _
  | @finalize g i pc item next hf hstep =>
    have hmove := finalizeStep_moves hstep
    have hs : Attempts (s.setItem i item) := ha.steady rfl rfl (Steady.update (hmove.steady hp hf))
    cases g with
    | run | evictor w => exact hs.steady rfl rfl fun _ => .refl _
    | call t =>
      refine hs.goto ?_ (.inl (CallPc.item_resume ..))
      have hafter := hmove.after hp hf
      simp only [State.finalizing] at hf
      simp only [State.setItem]
      cases hpc : s.calls t <;> rw [hpc] at hf <;> cases hf <;> cases hafter with
      | goOn => trivial
      | returned ho => exact ⟨_, by rw [update_self]; exact ho⟩

theorem attempts_reaches {n : Nat} {ok : State Tid → Act Tid → Prop}
    (h : Reaches step ok (State.new n) s) : Attempts s := by
  have hinit : Attempts (State.new n : State Tid) := ⟨fun _ => trivial, nofun, nofun⟩
  have hnil : Reaches step ok (State.new n : State Tid) (State.new n) := .init
  have hinv : (Allocated s ∧ Protocol s) ∧ Attempts s := by
    refine h.invariant (fun s => (Allocated s ∧ Protocol s) ∧ Attempts s)
      ⟨⟨allocated_reaches hnil, protocol_reaches hnil⟩, hinit⟩ ?_
    rintro s a s' ⟨⟨hal, hp⟩, ha⟩ _ hs
    have hm := step_moves hs
    exact ⟨⟨hal.step hm, hp.step hal hm⟩, ha.step hal hp hm⟩
  exact hinv.2

theorem Moves.keeps {a : Act Tid} (h : Moves s a s') (hal : Allocated s) (hp : Protocol s) (i : Nat) (fs : FinalState) :
    ((s.items i).finalState = some fs → (s'.items i).finalState = some fs) ∧
      (Settled (s.items i) fs → Settled (s'.items i) fs) := by
  by_cases ha : ∀ g, a ≠ .finalize g
  · have hin := (h.items ha).inert_all hal i
    exact ⟨fun hf => hin.finalState.trans hf, fun hf => ⟨hin.finalState.trans hf.1, hin.sent.trans hf.2⟩⟩
  · cases h with
    | stop | cancel | call | run | pool => simp at ha
    | @finalize g j pc item next hf hstep =>
      have hst := Steady.update ((finalizeStep_moves hstep).steady hp hf) i
      rw [State.resume_items]
      exact ⟨hst.finalState, hst.settled⟩

/-! ## Exactly-once finalization -/

/-- An item's one finalization. -/
structure ExactlyOnce (s : State Tid) (i : Nat) : Prop where
  /-- nothing but the final state is on the channel, and once only -/
  published : (s.items i).sent = [] ∨ ∃ fs, Settled (s.items i) fs
  /-- a finalization call that returns leaves the state published -/
  returns : ∀ {a pc item}, s.finalizing a = some (i, pc) →
    finalizeStep a (s.items i) pc = some (item, none) → ∃ fs, Settled item fs
  /-- the goroutine in the body of the `sync.Once` never waits -/
  proceeds : ∀ {a}, (s.items i).once = .running a →
    ∃ pc r, s.finalizing a = some (i, pc) ∧ finalizeStep a (s.items i) pc = some r
  /-- the state never changes, stored or published -/
  permanent : ∀ {s' fs}, Reaches step Any s s' →
    ((s.items i).finalState = some fs → (s'.items i).finalState = some fs) ∧
      (Settled (s.items i) fs → Settled (s'.items i) fs)
  /-- a call that returns from this attempt returns that state -/
  result : ∀ {t fs}, s.calls t = .returned (some i) fs → Settled (s.items i) fs
  /-- and only a draining shard takes an item from its call -/
  retried : i < s.nextItem → (∃ t, (s.calls t).item = some i) ∨ Retired (s.items i)
  /-- a dispatch is of the goroutine that removed the item from its queue,
  and that was the first to finalize it -/
  dispatched : ∀ {fs}, (s.items i).finalState = some fs → fs.outcome = .dispatched →
    (s.items i).dispatched = true ∧ ((s.items i).once = .running .run ∨ (s.items i).once = .done .run)

omit [DecidableEq Tid] in
theorem Protocol.proceeds (hp : Protocol s) {a : Agent Tid} (ho : (s.items i).once = .running a) :
    ∃ pc r, s.finalizing a = some (i, pc) ∧ finalizeStep a (s.items i) pc = some r := by
  obtain ⟨pc, hf, he⟩ := hp.running ho
  obtain ⟨-, hm⟩ := hp.entered hf he
  cases pc with
  | enter => cases he
  | load | store | close => exact ⟨_, _, hf, rfl⟩
  | send fs =>
    obtain ⟨-, hsent, hc⟩ := hm
    have hroom : (s.items i).sent.length - (s.items i).received < 1 ∧ (s.items i).closed = false :=
      ⟨by simp [hsent], hc⟩
    exact ⟨_, _, hf, if_pos hroom⟩

/-- **Every item is finalized exactly once.** In every run of any number of
calls with the processor, its sweep and its shutdown, and whatever the
registry answers: an item's channel carries at most one state, and one as
soon as any finalization call on it has returned; that state never changes;
it is what `EnqueueAndWait` returns from the attempt; and it is a dispatch
only if the processor took the item out of its queue and was the first to
finalize it. -/
theorem finalized_exactly_once {n : Nat} (h : Reaches step Any (State.new n) s) (i : Nat) : ExactlyOnce s i where
  published := ((protocol_reaches h).sent i).imp_left (·.1)
  returns := fun hf hstep => by
    have hafter := (finalizeStep_moves hstep).after (protocol_reaches h) hf
    cases hafter with
    | returned _ hfs hsent => exact ⟨_, hfs, hsent⟩
  proceeds := (protocol_reaches h).proceeds
  permanent := fun {s' fs} hr => by
    refine (hr.invariant (fun s₁ => Reaches step Any (State.new n) s₁ ∧
      ((s.items i).finalState = some fs → (s₁.items i).finalState = some fs) ∧
      (Settled (s.items i) fs → Settled (s₁.items i) fs)) ⟨h, id, id⟩ ?_).2
    rintro s₁ a s₂ ⟨hr₁, hfs, hset⟩ hok hs
    obtain ⟨hfs', hset'⟩ := (step_moves hs).keeps (allocated_reaches hr₁) (protocol_reaches hr₁) i fs
    exact ⟨hr₁.next hok hs, hfs' ∘ hfs, hset' ∘ hset⟩
  result := fun {t fs} ht => by
    have hok := (attempts_reaches h).ok t
    rw [ht] at hok
    exact hok
  retried := (attempts_reaches h).retired
  dispatched := fun hfs ho => by
    obtain ⟨a, hrun, hj⟩ := (protocol_reaches h).stored hfs
    obtain ⟨rfl, hd⟩ := hj.dispatched ho
    exact ⟨hd, hrun⟩

/-- A call expires between the removal of its item and its finalization. -/
def expiryRace : List (Act Unit) :=
  [.call () (.start { key := { id := "a", priority := 0 }, byteSize := 1 }), .call () .connected, .call () .next,
    .call () (.candidates .found), .call () .next, .call () .send,
    .run .receive, .run .next, .run (.queue (.ok 0)), .run (.band none), .run (.capacity true), .run (.add false),
    .run (.levels 0 [(0, 1)]), .run (.pick (some 0)), .run (.queue (.ok 0)), .run .next,
    .call () (.expire ⟨.sentinel ctxDeadlineExceeded, .sentinel errTTLExpired⟩), .call () .ctxDone,
    .finalize (.call ()), .finalize (.call ()), .finalize (.call ()), .finalize (.call ()), .finalize (.call ()),
    .finalize .run, .call () .next, .call () .next, .call () .leave]

/-- The one call has returned from its first attempt with outcome `o`. -/
def returnedWith (o : QueueOutcome) (s : State Unit) : Bool :=
  match s.calls () with
  | .returned (some 0) fs => fs.outcome = o
  | _ => false

theorem finalized_exactly_once_race : ∃ s : State Unit, Reaches step Any (State.new 1) s ∧
    returnedWith .evictedTTL s = true ∧ (s.items 0).dispatched = true ∧ ExactlyOnce s 0 := by
  obtain ⟨s, hs, hret, hd⟩ := exists_of_run step (State.new 1) expiryRace
    (fun s => returnedWith .evictedTTL s ∧ (s.items 0).dispatched) (by decide +kernel)
  exact ⟨s, hs, hret, hd, finalized_exactly_once hs 0⟩

/-! ## Outcomes and errors -/

/-- **Outcome and error of `EnqueueAndWait` belong together**, whatever path
the call took: it never returns an outcome that is not final, it returns a
dispatch exactly when the error is nil, and a rejection or an eviction comes
with an error that wraps `ErrRejected` or `ErrEvicted`. -/
theorem outcome_error_paired {n : Nat} (h : Reaches step Any (State.new n) s) {t : Tid} {src : Option Nat}
    {fs : FinalState} (ht : s.calls t = .returned src fs) : Paired fs := by
  have hok := (attempts_reaches h).ok t
  rw [ht] at hok
  cases src with
  | none => exact hok
  | some i => exact (protocol_reaches h).paired hok

theorem outcome_error_paired_race : ∃ (s : State Unit) (fs : FinalState), Reaches step Any (State.new 1) s ∧
    s.calls () = .returned (some 0) fs ∧ fs.outcome = .evictedTTL ∧ Paired fs := by
  obtain ⟨s, hs, hret⟩ := exists_of_run step (State.new 1) expiryRace (returnedWith .evictedTTL ·) (by decide +kernel)
  unfold returnedWith at hret
  split at hret
  · rename_i fs ht
    exact ⟨s, fs, hs, ht, by simpa using hret, outcome_error_paired hs ht⟩
  · cases hret

end Attempts

end InferenceScheduler.Controller
