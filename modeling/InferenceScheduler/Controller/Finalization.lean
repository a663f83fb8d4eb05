/-
The finalization protocol of an item: whichever goroutine enters its
`sync.Once` stores and publishes one final state, and every other call finds
that state (`Protocol`, an invariant of all runs). `finalized_exactly_once`
is what `EnqueueAndWait` and the processor rely on.
-/
import InferenceScheduler.Controller.Allocation

namespace InferenceScheduler.Controller

open Function (update_of_ne update_self)

variable {Tid : Type}

/-- What `a` may give an item: outcome and error belong together, and a dispatch
is `Run`'s, of an item it took out of a queue. -/
structure Justified (a : Agent Tid) (item : FlowItem Tid) (fs : FinalState) : Prop where
  paired : Paired fs
  dispatched : fs.outcome = .dispatched → a = .run ∧ item.dispatched = true

variable {a : Agent Tid} {item item' : FlowItem Tid}

theorem Justified.reject {o : QueueOutcome} {format : String} {es : List GoError} (ho : o.isRejected = true) :
    Justified a item ⟨o, some (.errorf format (.sentinel errRejected :: es))⟩ := by
  refine ⟨.reject ho, fun h => ?_⟩
  subst h
  cases ho

theorem Justified.evict : Justified a item shutdownEviction := by
  refine ⟨.evict rfl, fun h => ?_⟩
  cases h

theorem Justified.infer (cause : GoError) (isQueued : Bool) : Justified a item (inferOutcome cause isQueued) :=
  ⟨inferOutcome_paired .., fun h => absurd h (inferOutcome_ne_dispatched _ _)⟩

theorem Justified.mono {fs : FinalState} (h : Justified a item fs)
    (hd : item.dispatched = true → item'.dispatched = true) : Justified a item' fs :=
  ⟨h.paired, fun ho => ⟨(h.dispatched ho).1, hd (h.dispatched ho).2⟩⟩

/-- The final states a finalization call may go on to store. -/
def FinalizePc.Sound (a : Agent Tid) (item : FlowItem Tid) : FinalizePc → Prop
  | .enter (.outcome fs) | .store fs | .send fs => Justified a item fs
  | .enter (.cause _) | .load _ | .close => True

theorem FinalizePc.Sound.mono {pc : FinalizePc} (h : pc.Sound a item)
    (hd : item.dispatched = true → item'.dispatched = true) : pc.Sound a item' := by
  cases pc with
  | enter f =>
    cases f with
    | cause => trivial
    | outcome fs => exact Justified.mono h hd
  | load | close => trivial
  | store fs | send fs => exact Justified.mono h hd

/-- The call is in the body of the `sync.Once`. -/
def FinalizePc.entered : FinalizePc → Bool
  | .enter _ => false
  | .load _ | .store _ | .send _ | .close => true

/-- The item in the body, before each of its steps. -/
def Midway (item : FlowItem Tid) : FinalizePc → Prop
  | .enter _ => True
  | .load _ | .store _ => item.finalState = none ∧ item.sent = [] ∧ item.closed = false
  | .send fs => item.finalState = some fs ∧ item.sent = [] ∧ item.closed = false
  | .close => ∃ fs, item.finalState = some fs ∧ item.sent = [fs] ∧ item.closed = false

theorem Midway.inert {pc : FinalizePc} (h : Midway item pc) (hi : Inert item item') : Midway item' pc := by
  cases pc <;> simp only [Midway, hi.finalState, hi.sent, hi.closed] at h ⊢ <;> exact h

/-- What a finalization call can do next. -/
inductive FinalizeMoves (a : Agent Tid) (item : FlowItem Tid) :
    FinalizePc → FlowItem Tid → Option FinalizePc → Prop
  | enterCause {err} : item.once = .fresh →
      FinalizeMoves a item (.enter (.cause err)) { item with once := .running a } (some (.load err))
  | enterOutcome {fs} : item.once = .fresh →
      FinalizeMoves a item (.enter (.outcome fs)) { item with once := .running a } (some (.store fs))
  | found {f g} : item.once = .done g → FinalizeMoves a item (.enter f) item none
  | load {err} : FinalizeMoves a item (.load err) item (some (.store (inferOutcome err item.handle.isSome)))
  | store {fs} : FinalizeMoves a item (.store fs) { item with finalState := some fs } (some (.send fs))
  | send {fs} : FinalizeMoves a item (.send fs) { item with sent := item.sent ++ [fs] } (some .close)
  | close : FinalizeMoves a item .close { item with closed := true, once := .done a } none

theorem finalizeStep_moves {pc : FinalizePc} {next : Option FinalizePc}
    (h : finalizeStep a item pc = some (item', next)) :
    FinalizeMoves a item pc item' next := by
  unfold finalizeStep at h
  split at h
  case h_1 f =>
    split at h
    · cases f <;> cases h
      · exact .enterCause ‹_›
      · exact .enterOutcome ‹_›
    · cases h
    · cases h
      exact .found ‹_›
  case h_2 => cases h; exact .load
  case h_3 => cases h; exact .store
  case h_4 =>
    split at h
    · cases h; exact .send
    · cases h
  case h_5 => cases h; exact .close

/-! ## Steps outside the finalization calls -/

theorem distributionFailed_sound {t : Tid} (err : GoError) (cause : Option GoError) :
    (FinalizePc.enter (distributionFailed err cause)).Sound (.call t) item := by
  unfold distributionFailed
  cases cause <;> simp only [Option.map_none, Option.map_some, Option.getD] <;> split
  all_goals first | trivial | exact Justified.reject rfl

/-- A goroutine's finalization call stands as before, or a sound one begins. -/
def Begins (s s' : State Tid) (a : Agent Tid) : Prop :=
  s'.finalizing a = s.finalizing a ∨
    s.finalizing a = none ∧ ∃ i f, s'.finalizing a = some (i, .enter f) ∧
      (FinalizePc.enter f).Sound a (s'.items i)

theorem CallGoto.begins {s : State Tid} {t : Tid} {a : CallAct} {pc pc' : CallPc} (h : CallGoto s t a pc pc') :
    pc.finalizing = none ∧ (pc'.finalizing = none ∨ ∃ i f, pc'.finalizing = some (i, .enter f) ∧
      (FinalizePc.enter f).Sound (.call t) (s.items i)) := by
  cases h with
  | @notRunning a i pc h =>
    refine ⟨?_, .inr ⟨i, _, rfl, distributionFailed_sound ..⟩⟩
    rcases h with ⟨-, rfl, -⟩ | ⟨-, rfl, -⟩ <;> rfl
  | @ctxFailed i d => exact ⟨rfl, .inr ⟨i, _, rfl, distributionFailed_sound ..⟩⟩
  | @expiring i d => exact ⟨rfl, .inr ⟨i, _, rfl, trivial⟩⟩
  | panic h => refine ⟨?_, .inl rfl⟩; rcases h with ⟨rfl | rfl, -⟩ | ⟨rfl, -⟩ <;> rfl
  | start | connected | refused | stopped | distribute | submitClosed | submitOpen | busy | blockOpen
  | failed | expired | retry | decided | leave => exact ⟨rfl, .inl rfl⟩

theorem RunGoto.begins {s : State Tid} {a : RunAct} {pc pc' : RunPc} (h : RunGoto s a pc pc') :
    pc.finalizing = none ∧ (pc'.finalizing = none ∨ ∃ i f, pc'.finalizing = some (i, .enter f) ∧
      (FinalizePc.enter f).Sound .run (s.items i)) := by
  cases h with
  | @noQueue i | @noBand i | @full i | @draining i => exact ⟨rfl, .inr ⟨i, _, rfl, .reject rfl⟩⟩
  | done | tick | discard | proceed | queue | band | room | levels | cycleEnd | skip | pick | dispatch
  | dispatchFailed | removeFailed | evicted | returned => exact ⟨rfl, .inl rfl⟩

section Begins

variable {s s' : State Tid} {g : Agent Tid}

theorem Begins.of_none {f : Option (Nat × FinalizePc)} (h : s.finalizing g = none)
    (hf : s'.finalizing g = f)
    (h' : f = none ∨ ∃ i f', f = some (i, .enter f') ∧ (FinalizePc.enter f').Sound g (s'.items i)) :
    Begins s s' g := by
  subst hf
  rcases h' with h' | h'
  · exact .inl (h'.trans h.symm)
  · exact .inr ⟨h, h'⟩

theorem RunMoves.begins {a : RunAct} (h : RunMoves s a s') (g : Agent Tid) : Begins s s' g := by
  cases g with
  | call t => cases h <;> exact .inl rfl
  | evictor w =>
    cases h with
    | drained =>
      left
      simp only [State.finalizing, State.setPool, update_self]
    | goto | receive | add | remove | flag | drain => exact .inl rfl
  | run =>
    cases h with
    | goto hpc hgo =>
      obtain ⟨hnone, hbegin⟩ := hgo.begins
      exact .of_none (by rw [State.finalizing, hpc, hnone]) rfl hbegin
    | receive hpc | add hpc | flag hpc | drained hpc =>
      exact .inl (by simp only [State.finalizing, hpc, RunPc.finalizing])
    | @remove i q hpc =>
      refine .of_none (by rw [State.finalizing, hpc]; rfl) rfl (.inr ⟨i, _, rfl, .dispatch, fun _ => ⟨rfl, ?_⟩⟩)
      simp only [State.setItem, update_self]
    | @drain i rest hpc =>
      exact .of_none (by rw [State.finalizing, hpc]; rfl) rfl (.inr ⟨i, _, rfl, .reject rfl⟩)

theorem Begins.setPool {p : PoolId} {pool : Pool} {w : Fin 4} {worker : Worker}
    (hpool : pool.workers = Function.update (s.pools p).workers w worker)
    (hw : ((s.pools p).workers w).finalizing = none)
    (hworker : worker.finalizing = none ∨ ∃ i, worker.finalizing = some (i, .enter (.outcome shutdownEviction)))
    (g : Agent Tid) : Begins s (s.setPool p pool) g := by
  cases g with
  | call t | run => exact .inl rfl
  | evictor w' =>
    by_cases hp : p = .evict
    · subst hp
      by_cases hw' : w' = w
      · subst hw'
        refine .of_none hw (f := worker.finalizing) ?_ ?_
        · simp only [State.finalizing, State.setPool, update_self, hpool]
        · rcases hworker with h | ⟨i, h⟩
          · exact .inl h
          · exact .inr ⟨i, _, h, .evict⟩
      · left
        simp only [State.finalizing, State.setPool, update_self, hpool]
        rw [update_of_ne hw']
    · left
      simp only [State.finalizing, State.setPool]
      rw [update_of_ne (Ne.symm hp)]

theorem Worker.evict_finalizing (is : List Nat) : (Worker.evict is).finalizing = none ∨
    ∃ i, (Worker.evict is).finalizing = some (i, .enter (.outcome shutdownEviction)) := by
  cases is with
  | nil => exact .inl rfl
  | cons i is => exact .inr ⟨i, rfl⟩

theorem PoolMoves.begins {p : PoolId} {a : PoolAct} (h : PoolMoves s p a s') (g : Agent Tid) : Begins s s' g := by
  cases h with
  | goto | band =>
    cases g with
    | call t | run => exact .inl rfl
    | evictor w =>
      left
      simp only [State.finalizing, State.setPool, Function.update_apply]
      split
      · subst p; rfl
      · rfl
  | take _ hw | queue hw | noQueue hw => exact Begins.setPool rfl (by rw [hw]; rfl) (.inl rfl) g
  | @cleanup w q removed _ hw =>
    exact Begins.setPool (s := s.setQueue q _) rfl
      (by simp only [State.setQueue, hw, Worker.finalizing]) (.inl rfl) g
  | @drain w q removed _ hw =>
    exact Begins.setPool (s := s.setQueue q []) rfl
      (by simp only [State.setQueue, hw, Worker.finalizing]) (Worker.evict_finalizing _) g

theorem State.startWorker_finalizing (s : State Tid) (g : Agent Tid) : s.startWorker.finalizing g = s.finalizing g := by
  unfold State.startWorker
  split
  · rename_i hrun
    cases g with
    | call t | evictor w => rfl
    | run => simp only [State.finalizing, hrun, RunPc.finalizing]
  · rfl

variable [DecidableEq Tid] {t : Tid}

theorem Begins.goto {s₀ : State Tid} {pc : CallPc} (hs : ∀ g, g ≠ .call t → Begins s₀ (s.goto t pc) g)
    (ht : s₀.finalizing (.call t) = none)
    (hpc : pc.finalizing = none ∨ ∃ i f, pc.finalizing = some (i, .enter f) ∧
      (FinalizePc.enter f).Sound (.call t) (s.items i)) (g : Agent Tid) : Begins s₀ (s.goto t pc) g := by
  by_cases hg : g = .call t
  · subst hg
    refine .of_none ht (f := pc.finalizing) ?_ hpc
    simp only [State.finalizing, State.goto, update_self]
  · exact hs g hg

theorem State.goto_finalizing (s : State Tid) {pc : CallPc} {g : Agent Tid} (hg : g ≠ .call t) :
    (s.goto t pc).finalizing g = s.finalizing g := by
  cases g with
  | call t' =>
    have ht : t' ≠ t := fun h => hg (h ▸ rfl)
    simp only [State.finalizing, State.goto]
    rw [update_of_ne ht]
  | run | evictor w => rfl

theorem CallMoves.begins {a : CallAct} (h : CallMoves s t a s') (g : Agent Tid) : Begins s s' g := by
  cases h with
  | goto hpc hgo =>
    obtain ⟨hnone, hbegin⟩ := hgo.begins
    exact Begins.goto (fun g hg => .inl (s.goto_finalizing hg)) (by rw [State.finalizing, hpc, hnone]) hbegin g
  | expire => exact .inl (by cases g <;> rfl)
  | @candidates c r hpc =>
    refine Begins.goto (fun g hg => .inl ?_) (by rw [State.finalizing, hpc]; rfl) ?_ g
    · rw [State.goto_finalizing _ hg]
      split
      · cases g <;> rfl
      · rw [State.startWorker_finalizing]
        cases g <;> rfl
    · split
      · exact .inl rfl
      · exact .inr ⟨_, _, rfl, .reject rfl⟩
  | @sendBuffer i pc hpc hsel =>
    refine Begins.goto (fun g hg => .inl ?_) ?_ (.inl rfl) g
    · rw [State.goto_finalizing _ hg]
      cases g <;> rfl
    · rw [State.finalizing, hpc]
      rcases hsel with rfl | rfl <;> rfl
  | @sendRun i pc hpc hsel hrun =>
    refine Begins.goto (fun g hg => .inl ?_) ?_ (.inl rfl) g
    · rw [State.goto_finalizing _ hg]
      cases g with
      | call | evictor => rfl
      | run => simp only [State.finalizing, hrun, RunPc.finalizing]
    · rw [State.finalizing, hpc]
      rcases hsel with rfl | rfl <;> rfl
  | @sendDrain i hpc hrun =>
    refine Begins.goto (fun g hg => ?_) (by rw [State.finalizing, hpc]; rfl) (.inl rfl) g
    cases g with
    | call | evictor => exact .inl (State.goto_finalizing _ hg)
    | run => exact .of_none (by rw [State.finalizing, hrun]; rfl) rfl (.inr ⟨i, _, rfl, .reject rfl⟩)
  | receive hpc =>
    refine Begins.goto (fun g hg => .inl ?_) (by rw [State.finalizing, hpc]; rfl) (.inl rfl) g
    rw [State.goto_finalizing _ hg]
    cases g <;> rfl

theorem Moves.begins {a : Act Tid} (h : Moves s a s') (ha : ∀ g, a ≠ .finalize g) (g : Agent Tid) :
    Begins s s' g := by
  cases h with
  | stop | cancel => exact .inl (by cases g <;> rfl)
  | call h | run h | pool h => exact h.begins g
  | finalize => exact absurd rfl (ha _)

end Begins

/-! ## The protocol -/

/-- How an item's `sync.Once`, its final state and its channel go together. -/
structure Protocol (s : State Tid) : Prop where
  entered : ∀ {a i pc}, s.finalizing a = some (i, pc) → pc.entered = true →
    (s.items i).once = .running a ∧ Midway (s.items i) pc
  running : ∀ {i a}, (s.items i).once = .running a → ∃ pc, s.finalizing a = some (i, pc) ∧ pc.entered = true
  fresh : ∀ {i}, (s.items i).once = .fresh →
    (s.items i).finalState = none ∧ (s.items i).sent = [] ∧ (s.items i).closed = false
  done : ∀ {i a}, (s.items i).once = .done a → ∃ fs, (s.items i).finalState = some fs ∧ (s.items i).sent = [fs]
  sound : ∀ {a i pc}, s.finalizing a = some (i, pc) → pc.Sound a (s.items i)
  stored : ∀ {i fs}, (s.items i).finalState = some fs →
    ∃ a, ((s.items i).once = .running a ∨ (s.items i).once = .done a) ∧ Justified a (s.items i) fs

section Protocol

variable {s s' : State Tid}

theorem Protocol.quiet (h : Protocol s) (hitems : ∀ i, Inert (s.items i) (s'.items i))
    (hbegin : ∀ g, Begins s s' g) : Protocol s' where
  entered {a i pc} hf he := by
    rcases hbegin a with hb | ⟨-, j, f, hb, -⟩
    · obtain ⟨ho, hm⟩ := h.entered (hb ▸ hf) he
      exact ⟨(hitems i).once.trans ho, hm.inert (hitems i)⟩
    · rw [hb] at hf
      cases hf
      cases he
  running {i a} ho := by
    obtain ⟨pc, hf, he⟩ := h.running ((hitems i).once ▸ ho)
    rcases hbegin a with hb | ⟨hb, -⟩
    · exact ⟨pc, hb.trans hf, he⟩
    · rw [hb] at hf
      cases hf
  fresh {i} ho := by
    rw [(hitems i).finalState, (hitems i).sent, (hitems i).closed]
    exact h.fresh ((hitems i).once ▸ ho)
  done {i a} ho := by
    rw [(hitems i).finalState, (hitems i).sent]
    exact h.done ((hitems i).once ▸ ho)
  sound {a i pc} hf := by
    rcases hbegin a with hb | ⟨-, j, f, hb, hsound⟩
    · exact (h.sound (hb ▸ hf)).mono (hitems i).dispatched
    · rw [hb] at hf
      cases hf
      exact hsound
  stored {i fs} hfs := by
    obtain ⟨a, ho, hj⟩ := h.stored ((hitems i).finalState ▸ hfs)
    exact ⟨a, by rw [(hitems i).once]; exact ho, hj.mono (hitems i).dispatched⟩

variable {i : Nat}

theorem State.resume_finalizing [DecidableEq Tid] {pc : FinalizePc} (h : s.finalizing a = some (i, pc))
    (next : Option FinalizePc) :
    (s.resume a next).finalizing a = next.map (i, ·) ∨
      next = none ∧ ∃ j, (s.resume a next).finalizing a = some (j, .enter (.outcome shutdownEviction)) := by
  cases a with
  | call t =>
    left
    simp only [State.finalizing] at h
    simp only [State.finalizing, State.resume, State.goto, update_self]
    cases hpc : s.calls t <;> rw [hpc] at h <;> cases h <;> cases next <;> rfl
  | run =>
    left
    simp only [State.finalizing] at h
    simp only [State.finalizing, State.resume]
    cases hpc : s.run <;> rw [hpc] at h <;> cases h <;> cases next <;> rfl
  | evictor w =>
    simp only [State.finalizing] at h
    simp only [State.finalizing, State.resume, State.setWorker, State.setPool, update_self]
    cases hpc : (s.pools .evict).workers w with
    | finalize j f rest =>
      rw [hpc] at h
      cases h
      cases next with
      | some pc => exact .inl rfl
      | none =>
        rcases Worker.evict_finalizing rest with h | h
        · exact .inl h
        · exact .inr ⟨rfl, h⟩
    | idle | lookup | process => rw [hpc] at h; cases h

theorem State.resume_finalizing_other [DecidableEq Tid] {g : Agent Tid} (hg : g ≠ a) (next : Option FinalizePc) :
    (s.resume a next).finalizing g = s.finalizing g := by
  cases a with
  | call t => exact State.goto_finalizing s hg
  | run => cases g <;> first | rfl | exact absurd rfl hg
  | evictor w =>
    cases g with
    | call | run => rfl
    | evictor w' =>
      have hw : w' ≠ w := fun h => hg (h ▸ rfl)
      simp only [State.finalizing, State.resume, State.setWorker, State.setPool, update_self]
      rw [update_of_ne hw]

/-- After a step of `a`'s finalization: in the body of the `sync.Once`, or past it. -/
inductive After (a : Agent Tid) (item : FlowItem Tid) : Option FinalizePc → Prop
  | goOn {pc} : pc.entered = true → item.once = .running a → Midway item pc → pc.Sound a item →
      (∀ fs, item.finalState = some fs → Justified a item fs) → After a item (some pc)
  | returned {g fs} : item.once = .done g → item.finalState = some fs → item.sent = [fs] →
      Justified g item fs → After a item none

variable {pc : FinalizePc} {next : Option FinalizePc}

theorem FinalizeMoves.after (h : FinalizeMoves a (s.items i) pc item next) (hs : Protocol s)
    (hf : s.finalizing a = some (i, pc)) : After a item next := by
  have hsound := hs.sound hf
  cases h with
  | enterCause ho =>
    have hfresh := hs.fresh ho
    exact .goOn rfl rfl hfresh trivial (by simp [hfresh.1])
  | enterOutcome ho =>
    have hfresh := hs.fresh ho
    exact .goOn rfl rfl hfresh (Justified.mono hsound id) (by simp [hfresh.1])
  | @found f g ho =>
    obtain ⟨fs, hfs, hsent⟩ := hs.done ho
    obtain ⟨g', ho', hj⟩ := hs.stored hfs
    obtain rfl : g = g' := by
      rw [ho] at ho'
      simpa using ho'
    exact .returned ho hfs hsent hj
  | load =>
    obtain ⟨ho, hm⟩ := hs.entered hf rfl
    exact .goOn rfl ho hm (.infer ..) (by simp [hm.1])
  | @store fs =>
    obtain ⟨ho, -, hm⟩ := hs.entered hf rfl
    have hj : Justified a { s.items i with finalState := some fs } fs := Justified.mono hsound id
    exact .goOn rfl ho ⟨rfl, hm⟩ hj fun fs hfs => Option.some.inj hfs ▸ hj
  | @send fs =>
    obtain ⟨ho, hfs, hsent, hc⟩ := hs.entered hf rfl
    have hj : Justified a { s.items i with sent := (s.items i).sent ++ [fs] } fs := Justified.mono hsound id
    exact .goOn rfl ho ⟨_, hfs, by simp [hsent], hc⟩ trivial
      fun fs hfs' => Option.some.inj (hfs.symm.trans hfs') ▸ hj
  | close =>
    obtain ⟨ho, fs, hfs, hsent, -⟩ := hs.entered hf rfl
    obtain ⟨g, ho', hj⟩ := hs.stored hfs
    obtain rfl : a = g := by
      rw [ho] at ho'
      simpa using ho'
    exact .returned rfl hfs hsent (hj.mono id)

theorem FinalizeMoves.alone {g : Agent Tid} {pc' : FinalizePc}
    (h : FinalizeMoves a (s.items i) pc item next) (hs : Protocol s)
    (hf : s.finalizing a = some (i, pc)) (hf' : s.finalizing g = some (i, pc')) (he : pc'.entered = true) :
    g = a := by
  have ho := (hs.entered hf' he).1
  cases h with
  | enterCause h | enterOutcome h | found h => rw [h] at ho; cases ho
  | load | store | send | close =>
    have ho' := (hs.entered hf rfl).1
    rw [ho] at ho'
    simpa using ho'

theorem FinalizeMoves.dispatched {item' : FlowItem Tid}
    (h : FinalizeMoves a item pc item' next) : item'.dispatched = item.dispatched := by
  cases h <;> rfl

variable [DecidableEq Tid]

theorem Protocol.finalize (hs : Protocol s) (hf : s.finalizing a = some (i, pc))
    (h : FinalizeMoves a (s.items i) pc item next) : Protocol ((s.setItem i item).resume a next) := by
  have hafter := h.after hs hf
  have hitem : ((s.setItem i item).resume a next).items i = item := by
    rw [State.resume_items]
    exact update_self ..
  have hother : ∀ {j}, j ≠ i → ((s.setItem i item).resume a next).items j = s.items j := fun hj => by
    rw [State.resume_items]
    exact update_of_ne hj ..
  have hfin : ∀ g, (s.setItem i item).finalizing g = s.finalizing g := fun g => by cases g <;> rfl
  have hmove := State.resume_finalizing (s := s.setItem i item) ((hfin a).trans hf) next
  have hstay : ∀ {g}, g ≠ a → ((s.setItem i item).resume a next).finalizing g = s.finalizing g := fun hg => by
    rw [State.resume_finalizing_other hg, hfin]
  generalize (s.setItem i item).resume a next = s' at hitem hother hmove hstay
  exact {
    entered := fun {g j pc'} hf' he => by
      by_cases hg : g = a
      · subst hg
        rcases hmove with hm | ⟨-, k, hm⟩
        · cases hafter with
          | goOn he' ho hmid =>
            rw [hm] at hf'
            cases hf'
            exact ⟨hitem ▸ ho, hitem ▸ hmid⟩
          | returned => rw [hm] at hf'; cases hf'
        · rw [hm] at hf'
          cases hf'
          cases he
      · rw [hstay hg] at hf'
        have hj : j ≠ i := fun hj => hg (h.alone hs hf (hj ▸ hf') he)
        rw [hother hj]
        exact hs.entered hf' he
    running := fun {j g} ho => by
      by_cases hj : j = i
      · subst hj
        rw [hitem] at ho
        cases hafter with
        | goOn he ho' =>
          obtain rfl : a = g := by simpa [ho'] using ho
          rcases hmove with hm | ⟨hn, -⟩
          · exact ⟨_, hm, he⟩
          · cases hn
        | returned ho' => rw [ho'] at ho; cases ho
      · rw [hother hj] at ho
        obtain ⟨pc', hf', he⟩ := hs.running ho
        have hg : g ≠ a := by
          rintro rfl
          rw [hf] at hf'
          cases hf'
          exact hj rfl
        exact ⟨pc', (hstay hg).trans hf', he⟩
    fresh := fun {j} ho => by
      by_cases hj : j = i
      · subst hj
        rw [hitem] at ho
        cases hafter with
        | goOn _ ho' | returned ho' => rw [ho'] at ho; cases ho
      · rw [hother hj] at ho ⊢
        exact hs.fresh ho
    done := fun {j g} ho => by
      by_cases hj : j = i
      · subst hj
        rw [hitem] at ho ⊢
        cases hafter with
        | goOn _ ho' => rw [ho'] at ho; cases ho
        | returned _ hfs hsent => exact ⟨_, hfs, hsent⟩
      · rw [hother hj] at ho ⊢
        exact hs.done ho
    sound := fun {g j pc'} hf' => by
      by_cases hg : g = a
      · subst hg
        rcases hmove with hm | ⟨-, k, hm⟩
        · cases hafter with
          | goOn _ _ _ hsound =>
            rw [hm] at hf'
            cases hf'
            exact hitem ▸ hsound
          | returned => rw [hm] at hf'; cases hf'
        · rw [hm] at hf'
          cases hf'
          exact Justified.evict
      · rw [hstay hg] at hf'
        by_cases hj : j = i
        · subst hj
          rw [hitem]
          exact (hs.sound hf').mono fun hd => h.dispatched.trans hd
        · rw [hother hj]
          exact hs.sound hf'
    stored := fun {j fs} hfs => by
      by_cases hj : j = i
      · subst hj
        rw [hitem] at hfs ⊢
        cases hafter with
        | goOn _ ho _ _ hst => exact ⟨a, .inl ho, hst fs hfs⟩
        | returned ho hfs' _ hjust => exact ⟨_, .inr ho, Option.some.inj (hfs'.symm.trans hfs) ▸ hjust⟩
      · rw [hother hj] at hfs ⊢
        exact hs.stored hfs }

theorem Protocol.step {a : Act Tid} (hs : Protocol s) (hal : Allocated s) (h : Moves s a s') : Protocol s' := by
  by_cases ha : ∀ g, a ≠ .finalize g
  · exact hs.quiet ((h.items ha).inert_all hal) (h.begins ha)
  · cases h with
    | stop | cancel | call | run | pool => simp at ha
    | finalize hf hstep => exact hs.finalize hf (finalizeStep_moves hstep)

theorem protocol_reaches {n : Nat} {ok : State Tid → Act Tid → Prop}
    (h : Reaches step ok (State.new n) s) : Protocol s := by
  have hinit : Protocol (State.new n : State Tid) :=
    { entered := fun {a _ _} hf => by cases a <;> cases hf
      running := nofun
      fresh := fun _ => ⟨rfl, rfl, rfl⟩
      done := nofun
      sound := fun {a _ _} hf => by cases a <;> cases hf
      stored := fun hfs => by cases hfs }
  have hinv : Allocated s ∧ Protocol s := by
    refine h.invariant (fun s => Allocated s ∧ Protocol s) 
      ⟨allocated_reaches (.init : Reaches step ok _ (State.new n)), hinit⟩ ?_
    rintro s a s' ⟨hal, hp⟩ _ hs
    exact ⟨hal.step (step_moves hs), hp.step hal (step_moves hs)⟩
  exact hinv.2

end Protocol

end InferenceScheduler.Controller
