/-
Where an item is between its acceptance and its finalization
(`placed_reaches`): in the channel, in the hands of `Run`, in a managed queue,
or in the hands of a worker that evicts it. The sweep drops only finalized
items, and every finalization call ends with a final state.
-/
import InferenceScheduler.Controller.Outcomes

namespace InferenceScheduler.Controller

open Function (update update_apply update_self)

/-- The item `Run` has taken and is still to put in a queue or finalize. -/
def RunPc.hand : RunPc → Option Nat
  | .loadState i | .lookup i | .band i _ | .capacity i _ | .add i _ | .rejecting i _ | .dispatched i _
  | .draining i _ => some i
  | .unstarted | .select | .cycleBegin | .cycle _ _ | .dispatch _ _ _ | .remove _ _ | .flag | .drain | .evicting
  | .wait | .returned => none

/-- The drain loop of `shutdown` has ended. -/
def RunPc.drained : RunPc → Bool
  | .evicting | .wait | .returned => true
  | _ => false

/-- `evictAll` has ended. -/
def RunPc.evicted : RunPc → Bool
  | .wait | .returned => true
  | _ => false

/-- `Run` has returned. -/
def RunPc.isReturned : RunPc → Bool
  | .returned => true
  | _ => false

theorem RunPc.isReturned_iff {pc : RunPc} : pc.isReturned = true ↔ pc = .returned := by
  cases pc <;> simp [RunPc.isReturned]

variable {Tid : Type}

/-- The processor holds item `i`. -/
inductive Held (s : State Tid) (i : Nat) : Prop
  | chan : i ∈ s.enqueueChan → Held s i
  | run : s.run.hand = some i → Held s i
  | queue {q} : i ∈ s.queues q → Held s i
  | worker {w} : i ∈ ((s.pools .evict).workers w).items → Held s i

/-- Every accepted item that is not finalized is held. -/
def Placed (s : State Tid) : Prop :=
  ∀ i, (s.items i).accepted = true → (s.items i).finalState = none → Held s i

section Held

variable {s s' : State Tid} {i : Nat}

theorem Held.mono (h : Held s i) (hchan : i ∈ s.enqueueChan → i ∈ s'.enqueueChan)
    (hrun : s.run.hand = some i → s'.run.hand = some i) (hqueue : ∀ q, i ∈ s.queues q → i ∈ s'.queues q)
    (hworker : ∀ w, i ∈ ((s.pools .evict).workers w).items → i ∈ ((s'.pools .evict).workers w).items) :
    Held s' i := by
  cases h with
  | chan h => exact .chan (hchan h)
  | run h => exact .run (hrun h)
  | queue h => exact .queue (hqueue _ h)
  | worker h => exact .worker (hworker _ h)

theorem RunGoto.hand {a : RunAct} {pc pc' : RunPc} (h : RunGoto s a pc pc') (hi : pc.hand = some i)
    (hfs : (s.items i).finalState = none) : pc'.hand = some i := by
  cases h with
  | discard h =>
    obtain rfl := Option.some.inj hi
    simp [hfs] at h
  | done | tick | levels | cycleEnd | skip | pick | dispatch | dispatchFailed | removeFailed | evicted | returned =>
    cases hi
  | proceed | queue | noQueue | band | noBand | room | full | draining => exact hi

theorem RunMoves.held {a : RunAct} (h : RunMoves s a s') (hi : Held s i) (hfs : (s'.items i).finalState = none) :
    Held s' i := by
  cases h with
  | goto hpc hgo => exact hi.mono id (fun hh => hgo.hand (hpc ▸ hh) hfs) (fun _ => id) fun _ => id
  | @receive j rest hpc hchan | @drain j rest hpc hchan =>
    cases hi with
    | chan h =>
      rw [hchan] at h
      rcases List.mem_cons.mp h with rfl | h
      · exact .run rfl
      · exact .chan h
    | run h => rw [hpc] at h; cases h
    | queue h => exact .queue h
    | worker h => exact .worker h
  | @add j q hpc =>
    have hq : ∀ {q' k}, k ∈ s.queues q' → k ∈ update s.queues q (s.queues q ++ [j]) q' := fun {q' k} h => by
      rw [update_apply]
      split
      · subst q'; exact List.mem_append_left _ h
      · exact h
    cases hi with
    | chan h => exact .chan h
    | run h =>
      rw [hpc] at h
      obtain rfl := Option.some.inj h
      refine .queue (q := q) ?_
      change j ∈ update s.queues q (s.queues q ++ [j]) q
      simp
    | queue h => exact .queue (hq h)
    | worker h => exact .worker h
  | @remove j q hpc hj =>
    by_cases hij : i = j
    · subst hij
      exact .run rfl
    · refine hi.mono id (fun h => ?_) (fun q' h => ?_) fun _ => id
      · rw [hpc] at h; cases h
      · change i ∈ update s.queues q ((s.queues q).erase j) q'
        rw [update_apply]
        split
        · subst q'; exact (List.mem_erase_of_ne hij).mpr h
        · exact h
  | flag hpc | drained hpc =>
    refine hi.mono id (fun h => ?_) (fun _ => id) fun _ h => ?_
    · rw [hpc] at h; cases h
    · exact h

theorem PoolMoves.held {p : PoolId} {a : PoolAct} (h : PoolMoves s p a s') (hi : Held s i)
    (hfs : (s'.items i).finalState = none) : Held s' i := by
  have hpool : ∀ {pool : Pool}, (∀ w, i ∈ ((s.pools p).workers w).items → i ∈ (pool.workers w).items) →
      ∀ w, i ∈ ((s.pools .evict).workers w).items →
        i ∈ ((update s.pools p pool .evict).workers w).items := fun {pool} hw w hmem => by
    rw [update_apply]
    split
    · subst p; exact hw w hmem
    · exact hmem
  have hworker : ∀ {w : Fin 4} {worker : Worker}, ((s.pools p).workers w).items = [] →
      ∀ w', i ∈ ((s.pools p).workers w').items →
        i ∈ (update (s.pools p).workers w worker w').items := fun {w worker} hw w' h => by
    rw [update_apply]
    split
    · subst w'; rw [hw] at h; cases h
    · exact h
  cases h with
  | goto | band => exact hi.mono id id (fun _ => id) (hpool fun _ => id)
  | take _ hw | queue hw | noQueue hw => exact hi.mono id id (fun _ => id) (hpool (hworker (by rw [hw]; rfl)))
  | @cleanup w q removed _ hw hsw =>
    refine hi.mono id id (fun q' h => ?_) (hpool (hworker (by rw [hw]; rfl)))
    change i ∈ update s.queues q _ q'
    rw [update_apply]
    split
    · subst q'
      refine List.mem_filter.mpr ⟨h, ?_⟩
      simp only [decide_eq_true_eq]
      intro hr
      have := (hsw i hr).2
      rw [show (s.items i).finalState = none from hfs] at this
      cases this
    · exact h
  | @drain w q removed hp hw =>
    subst hp
    by_cases hq : i ∈ s.queues q
    · refine .worker (w := w) ?_
      simp only [State.setWorker, State.setPool, update_self, Worker.items_evict]
      exact hq
    · refine hi.mono id id (fun q' h => ?_) (hpool (hworker (by rw [hw]; rfl)))
      change i ∈ update s.queues q [] q'
      rw [Function.update_of_ne]
      · exact h
      · rintro rfl
        exact hq h

theorem Held.startWorker (h : Held s i) : Held s.startWorker i := by
  unfold State.startWorker
  split
  · rename_i hrun
    refine h.mono id (fun h => ?_) (fun _ => id) fun _ => id
    rw [hrun] at h
    cases h
  · exact h

variable [DecidableEq Tid]

theorem CallMoves.held {t : Tid} {a : CallAct} (h : CallMoves s t a s') :
    (Held s i → Held s' i) ∧ ((s'.items i).accepted = true → (s.items i).accepted = true ∨ Held s' i) := by
  have hsend : ∀ {j : Nat}, (update s.items j { s.items j with accepted := true } i).accepted = true →
      (s.items i).accepted = true ∨ i = j := fun {j} h => by
    rw [update_apply] at h
    split at h
    · exact .inr ‹_›
    · exact .inl h
  cases h with
  | goto | expire => exact ⟨fun hi => hi.mono id id (fun _ => id) fun _ => id, .inl⟩
  | @candidates c r hpc =>
    have hnew : Held s i → Held (s.newItem r) i := fun hi => hi.mono id id (fun _ => id) fun _ => id
    refine ⟨fun hi => ?_, fun hacc => ?_⟩
    · have hw : Held (if c = .noShards then s.newItem r else (s.newItem r).startWorker) i := by
        split
        · exact hnew hi
        · exact (hnew hi).startWorker
      exact hw.mono id id (fun _ => id) fun _ => id
    · have hitems : ∀ s₁ : State Tid, s₁ = s.newItem r ∨ s₁ = (s.newItem r).startWorker →
          s₁.items = (s.newItem r).items := by
        rintro _ (rfl | rfl)
        · rfl
        · exact State.startWorker_items _
      simp only [State.goto] at hacc
      rw [hitems _ (by split <;> simp)] at hacc
      simp only [State.newItem, State.setItem, update_apply] at hacc
      split at hacc
      · cases hacc
      · exact .inl hacc
  | @sendBuffer j pc hpc hsel =>
    refine ⟨fun hi => hi.mono (List.mem_append_left _) id (fun _ => id) fun _ => id, fun hacc => ?_⟩
    rcases hsend hacc with h | rfl
    · exact .inl h
    · exact .inr (.chan (List.mem_append_right _ (List.mem_singleton_self _)))
  | @sendRun j pc hpc hsel hrun | @sendDrain j hpc hrun =>
    refine ⟨fun hi => hi.mono id (fun h => ?_) (fun _ => id) fun _ => id, fun hacc => ?_⟩
    · rw [hrun] at h; cases h
    · rcases hsend hacc with h | rfl
      · exact .inl h
      · exact .inr (.run rfl)
  | @receive j fs hpc =>
    refine ⟨fun hi => hi.mono id id (fun _ => id) fun _ => id, fun hacc => ?_⟩
    change (update s.items j _ i).accepted = true at hacc
    rw [update_apply] at hacc
    split at hacc
    · subst i; exact .inl hacc
    · exact .inl hacc

theorem Held.finalize {a : Agent Tid} {j : Nat} {pc : FinalizePc} {item : FlowItem Tid} {next : Option FinalizePc}
    (hi : Held s i) (hp : Protocol s) (hf : s.finalizing a = some (j, pc))
    (hmove : FinalizeMoves a (s.items j) pc item next)
    (hfs : (((s.setItem j item).resume a next).items i).finalState = none) :
    Held ((s.setItem j item).resume a next) i := by
  -- the item of a call that returns has its final state
  have hret : next = none → i ≠ j := by
    rintro rfl rfl
    rw [State.resume_items] at hfs
    simp only [State.setItem, update_self] at hfs
    cases hmove.after hp hf with
    | returned _ h => simp [hfs] at h
  cases a with
  | call t => exact hi.mono id id (fun _ => id) fun _ => id
  | run =>
    refine hi.mono id (fun h => ?_) (fun _ => id) fun _ => id
    change (s.run.resume next).hand = some i
    simp only [State.finalizing] at hf
    cases hpc : s.run <;> rw [hpc] at hf h <;> cases hf <;> cases next with
    | some pc => exact h
    | none => exact absurd (Option.some.inj h).symm (hret rfl)
  | evictor w =>
    refine hi.mono id id (fun _ => id) fun w' h => ?_
    simp only [State.resume, State.setWorker, State.setPool, update_self, update_apply]
    split
    · subst w'
      simp only [State.finalizing] at hf
      change i ∈ (((s.pools .evict).workers w).resume next).items
      cases hpc : (s.pools .evict).workers w with
      | finalize k f rest =>
        rw [hpc] at hf h
        cases hf
        cases next with
        | some pc => exact h
        | none =>
          rw [Worker.resume, Worker.items_evict]
          exact (List.mem_cons.mp h).resolve_left (hret rfl)
      | idle | lookup | process => rw [hpc] at hf; cases hf
    · exact h

theorem Placed.step {a : Act Tid} (h : Placed s) (hal : Allocated s) (hp : Protocol s) (hm : Moves s a s') :
    Placed s' := by
  intro i hacc hfs
  have hold : (s.items i).finalState = none := by
    cases hf : (s.items i).finalState with
    | none => rfl
    | some fs =>
      rw [(hm.keeps hal hp i fs).1 hf] at hfs
      cases hfs
  cases hm with
  | stop | cancel => exact (h i hacc hold).mono id id (fun _ => id) fun _ => id
  | call hm =>
    obtain ⟨hheld, haccept⟩ := hm.held (i := i)
    exact (haccept hacc).elim (fun hacc => hheld (h i hacc hold)) id
  | run hm =>
    refine hm.held (h i ?_ hold) hfs
    cases hm with
    | goto | receive | flag | drain | drained => exact hacc
    | add | remove =>
      change (update s.items _ _ i).accepted = true at hacc
      rw [update_apply] at hacc
      split at hacc
      · subst i; exact hacc
      · exact hacc
  | pool hm => exact hm.held (h i (by rw [← hm.items.1]; exact hacc) hold) hfs
  | @finalize g j pc item next hf hstep =>
    have hmove := finalizeStep_moves hstep
    refine (h i ?_ hold).finalize hp hf hmove hfs
    rw [State.resume_items] at hacc
    simp only [State.setItem, update_apply] at hacc
    split at hacc
    · subst i
      cases hmove <;> exact hacc
    · exact hacc

theorem placed_reaches {n : Nat} {ok : State Tid → Act Tid → Prop}
    (h : Reaches step ok (State.new n) s) : Placed s := by
  induction h with
  | init => exact nofun
  | next hr _ hs ih => exact ih.step (allocated_reaches hr) (protocol_reaches hr) (step_moves hs)

/-! ## Where an item goes -/

theorem Moves.mem_queue {a : Act Tid} {q : Nat} (h : Moves s a s') (hi : i ∈ s'.queues q) :
    i ∈ s.queues q ∨ s.run = .add i q := by
  cases h with
  | stop | cancel => exact .inl hi
  | call h =>
    cases h with
    | @candidates c r =>
      left
      simp only [State.goto] at hi
      split at hi
      · exact hi
      · unfold State.startWorker at hi
        split at hi <;> exact hi
    | goto | expire | sendBuffer | sendRun | sendDrain | receive => exact .inl hi
  | run h =>
    cases h with
    | @add j q' hpc =>
      change i ∈ update s.queues q' (s.queues q' ++ [j]) q at hi
      rw [update_apply] at hi
      split at hi
      · subst q
        rcases List.mem_append.mp hi with hi | hi
        · exact .inl hi
        · obtain rfl := List.mem_singleton.mp hi
          exact .inr hpc
      · exact .inl hi
    | @remove j q' =>
      change i ∈ update s.queues q' ((s.queues q').erase j) q at hi
      rw [update_apply] at hi
      split at hi
      · subst q; exact .inl (List.mem_of_mem_erase hi)
      · exact .inl hi
    | goto | receive | flag | drain | drained => exact .inl hi
  | pool h =>
    cases h with
    | @cleanup w q' removed =>
      change i ∈ update s.queues q' _ q at hi
      rw [update_apply] at hi
      split at hi
      · subst q; exact .inl (List.mem_of_mem_filter hi)
      · exact .inl hi
    | @drain w q' removed =>
      change i ∈ update s.queues q' [] q at hi
      rw [update_apply] at hi
      split at hi
      · cases hi
      · exact .inl hi
    | goto | band | take | queue | noQueue => exact .inl hi
  | @finalize g => cases g <;> exact .inl hi

/-- The queue `Run` is about to put its item in. -/
def RunPc.target : RunPc → Option (Nat × Nat)
  | .band i q | .capacity i q | .add i q => some (i, q)
  | _ => none

theorem RunPc.item_of_target {pc : RunPc} {q : Nat} (h : pc.target = some (i, q)) : pc.item = some i := by
  cases pc <;> simp_all [RunPc.target, RunPc.item]

theorem RunPc.resume_target {pc : RunPc} {next : Option FinalizePc} {x : Nat × Nat}
    (h : (pc.resume next).target = some x) : pc.target = some x := by
  cases pc <;> cases next <;> exact h

theorem Moves.target {a : Act Tid} {q : Nat} (h : Moves s a s') (hi : s'.run.target = some (i, q)) :
    s.run.target = some (i, q) ∨ s.run = .lookup i ∧ a = .run (.queue (.ok q)) := by
  cases h with
  | stop | cancel => exact .inl hi
  | call h =>
    cases h with
    | @candidates c r =>
      left
      simp only [State.goto] at hi
      split at hi
      · exact hi
      · unfold State.startWorker at hi
        split at hi
        · cases hi
        · exact hi
    | sendRun | sendDrain => cases hi
    | goto | expire | sendBuffer | receive => exact .inl hi
  | run h =>
    cases h with
    | goto hpc hgo =>
      cases hgo with
      | queue =>
        cases hi
        exact .inr ⟨hpc, rfl⟩
      | band | room =>
        rw [hpc]
        exact .inl hi
      | _ => cases hi
    | receive | add | remove | flag | drain | drained => cases hi
  | pool h => cases h <;> exact .inl hi
  | @finalize g =>
    cases g with
    | call | evictor => exact .inl hi
    | run => exact .inl (RunPc.resume_target hi)

/-- The item `Run` is on its way to queue. -/
def RunPc.admitting : RunPc → Option Nat
  | .loadState i | .lookup i | .band i _ | .capacity i _ | .add i _ => some i
  | _ => none

/-- The item is in the channel, on its way to a queue, or in one. -/
inductive Buffered (s : State Tid) (i : Nat) : Prop
  | chan : i ∈ s.enqueueChan → Buffered s i
  | run : s.run.admitting = some i → Buffered s i
  | queue {q} : i ∈ s.queues q → Buffered s i

omit [DecidableEq Tid] in
theorem RunPc.item_of_admitting {pc : RunPc} (h : pc.admitting = some i) : pc.item = some i := by
  cases pc <;> simp_all [RunPc.admitting, RunPc.item]

omit [DecidableEq Tid] in
theorem RunPc.admitting_of_target {pc : RunPc} {q : Nat} (h : pc.target = some (i, q)) :
    pc.admitting = some i := by
  cases pc <;> simp_all [RunPc.target, RunPc.admitting]

omit [DecidableEq Tid] in
theorem Buffered.refers (h : Buffered s i) : Refers s i := by
  cases h with
  | chan h => exact .chan h
  | run h => exact .run (RunPc.item_of_admitting h)
  | queue h => exact .queue h

omit [DecidableEq Tid] in
theorem RunPc.admitting_of_resume {pc : RunPc} {next : Option FinalizePc}
    (h : (pc.resume next).admitting = some i) : pc.admitting = some i := by
  cases pc <;> cases next <;> exact h

omit [DecidableEq Tid] in
theorem RunGoto.admitting {a : RunAct} {pc pc' : RunPc} (h : RunGoto s a pc pc')
    (hi : pc'.admitting = some i) : pc.admitting = some i := by
  cases h with
  | proceed | queue | band | room => exact hi
  | _ => cases hi

theorem Moves.buffered {a : Act Tid} (h : Moves s a s') (hi : Buffered s' i) : Buffered s i ∨
    ∃ t, (s.calls t = .submitSelect i ∨ s.calls t = .blockSelect i) ∧ s'.calls t = .await i := by
  have hqueue : ∀ {q}, i ∈ s'.queues q → Buffered s i := fun hq => by
    rcases h.mem_queue hq with hq | hrun
    · exact .queue hq
    · exact .run (by rw [hrun]; rfl)
  have hpc : ∀ {t : Tid} {pc : CallPc} {j : Nat}, s.calls t = pc → pc = .submitSelect j ∨ pc = .blockSelect j →
      s.calls t = .submitSelect j ∨ s.calls t = .blockSelect j := fun h hsel => by
    rcases hsel with rfl | rfl
    · exact .inl h
    · exact .inr h
  cases hi with
  | queue hq => exact .inl (hqueue hq)
  | chan hc =>
    cases h with
    | stop | cancel => exact .inl (.chan hc)
    | @call t _ _ h =>
      cases h with
      | @candidates c r =>
        left
        simp only [State.goto] at hc
        split at hc
        · exact .chan hc
        · unfold State.startWorker at hc
          split at hc <;> exact .chan hc
      | @sendBuffer j pc hpc' hsel =>
        rcases List.mem_append.mp hc with hc | hc
        · exact .inl (.chan hc)
        · obtain rfl := List.mem_singleton.mp hc
          exact .inr ⟨t, hpc hpc' hsel, by simp [State.goto]⟩
      | goto | expire | sendRun | sendDrain | receive => exact .inl (.chan hc)
    | run h =>
      cases h with
      | receive _ hchan | drain _ hchan => exact .inl (.chan (hchan ▸ List.mem_cons_of_mem _ hc))
      | goto | add | remove | flag | drained => exact .inl (.chan hc)
    | pool h => cases h <;> exact .inl (.chan hc)
    | @finalize g => cases g <;> exact .inl (.chan hc)
  | run hr =>
    cases h with
    | stop | cancel => exact .inl (.run hr)
    | @call t _ _ h =>
      cases h with
      | @candidates c r =>
        left
        simp only [State.goto] at hr
        split at hr
        · exact .run hr
        · unfold State.startWorker at hr
          split at hr
          · cases hr
          · exact .run hr
      | @sendRun j pc hpc' hsel =>
        cases hr
        exact .inr ⟨t, hpc hpc' hsel, by simp [State.goto]⟩
      | sendDrain => cases hr
      | goto | expire | sendBuffer | receive => exact .inl (.run hr)
    | run h =>
      cases h with
      | goto hpc hgo => exact .inl (.run (hpc ▸ hgo.admitting hr))
      | receive _ hchan =>
        cases hr
        exact .inl (.chan (hchan ▸ List.mem_cons_self))
      | add | remove | flag | drain | drained => cases hr
    | pool h => cases h <;> exact .inl (.run hr)
    | @finalize g =>
      cases g with
      | call | evictor => exact .inl (.run hr)
      | run =>
        exact .inl (.run (RunPc.admitting_of_resume hr))

/-! ## The call of an item -/

/-- The flow a call has a connection to: from the callback's begin to its
end. -/
def CallPc.connection (items : Nat → FlowItem Tid) : CallPc → Option FlowKey
  | .lifecycle r | .candidates r => some r.key
  | .submit i | .submitSelect i | .block i | .blockSelect i | .failing i _ | .failed i | .await i
  | .expiring i _ | .expired i | .decide i _ => some (items i).key
  | .idle | .connecting _ | .leaving _ _ | .returned _ _ | .panicked => none

/-- How a call moves on. -/
inductive CallNext (s : State Tid) (t : Tid) : Act Tid → CallPc → Prop
  | goto {a pc pc'} : s.calls t = pc → CallGoto s t a pc pc' → CallNext s t (.call t a) pc'
  | candidates {c r pc'} : s.calls t = .candidates r →
      pc' = .submit s.nextItem ∨ (∃ f, pc' = .failing s.nextItem f) → CallNext s t (.call t (.candidates c)) pc'
  | send {j} : s.calls t = .submitSelect j ∨ s.calls t = .blockSelect j → CallNext s t (.call t .send) (.await j)
  | receive {j fs} : s.calls t = .await j → CallNext s t (.call t .receive) (.decide j fs)
  | finalize {j f next} : (s.calls t).finalizing = some (j, f) →
      CallNext s t (.finalize (.call t)) ((s.calls t).resume next)

theorem Moves.calls {a : Act Tid} (h : Moves s a s') : s'.calls = s.calls ∨
    ∃ t pc, s'.calls = update s.calls t pc ∧ CallNext s t a pc ∧
      ∀ r, s.calls t = .candidates r → (s'.items s.nextItem).key = r.key := by
  cases h with
  | stop | cancel => exact .inl rfl
  | @call t _ _ h =>
    cases h with
    | goto hpc hgo =>
      refine .inr ⟨t, _, rfl, .goto hpc hgo, fun r hr => ?_⟩
      rw [hr] at hpc
      subst hpc
      cases hgo with
      | notRunning h => rcases h with ⟨-, h, -⟩ | ⟨-, h, -⟩ <;> cases h
      | panic h => rcases h with ⟨h | h, -⟩ | ⟨h, -⟩ <;> cases h
    | expire => exact .inl rfl
    | @candidates c r hpc =>
      have hcalls : (s.newItem r).startWorker.calls = s.calls := by
        unfold State.startWorker
        split <;> rfl
      refine .inr ⟨t, if c = .found then .submit s.nextItem else
        .failing s.nextItem (.enter (.outcome ⟨.rejectedCapacity, some (notAccepted noShardsErr)⟩)), ?_,
        .candidates hpc ?_, fun r' hr => ?_⟩
      · change update (ite _ _ _ : State Tid).calls t _ = _
        congr 1
        split
        · rfl
        · exact hcalls
      · split
        · exact .inl rfl
        · exact .inr ⟨_, rfl⟩
      · rw [hpc] at hr
        cases hr
        simp only [State.goto]
        split <;> simp [State.newItem, State.setItem, State.startWorker_items]
    | sendBuffer hpc hsel | sendRun hpc hsel =>
      refine .inr ⟨t, _, rfl, .send (by rw [hpc]; exact hsel), fun r hr => ?_⟩
      rw [hr] at hpc
      subst hpc
      simp at hsel
    | sendDrain hpc =>
      exact .inr ⟨t, _, rfl, .send (.inr hpc), fun r hr => by rw [hpc] at hr; cases hr⟩
    | receive hpc => exact .inr ⟨t, _, rfl, .receive hpc, fun r hr => by rw [hpc] at hr; cases hr⟩
  | run h | pool h => cases h <;> exact .inl rfl
  | @finalize g i f _ next hf =>
    cases g with
    | call t =>
      refine .inr ⟨t, _, rfl, .finalize hf, fun r hr => ?_⟩
      simp only [State.finalizing, hr] at hf
      cases hf
    | run | evictor => exact .inl rfl

omit [DecidableEq Tid] in
theorem CallPc.connection_resume (items : Nat → FlowItem Tid) (pc : CallPc) (next : Option FinalizePc) :
    (pc.resume next).connection items = pc.connection items := by
  cases pc <;> cases next <;> rfl

omit [DecidableEq Tid] in
theorem CallPc.connection_congr {items items' : Nat → FlowItem Tid} {pc : CallPc}
    (h : ∀ i, pc.item = some i → (items' i).key = (items i).key) : pc.connection items' = pc.connection items := by
  cases pc <;> simp only [CallPc.connection] <;> exact congrArg Option.some (h _ rfl)

theorem Moves.connection {a : Act Tid} {t : Tid} {key : FlowKey} (h : Moves s a s') (hal : Allocated s)
    (ha : a ≠ .call t .connected) (hk : (s'.calls t).connection s'.items = some key) :
    (s.calls t).connection s.items = some key := by
  have hitems : ∀ {pc : CallPc}, (∀ i, pc.item = some i → (s.calls t).item = some i) →
      pc.connection s'.items = pc.connection s.items := fun hpc =>
    CallPc.connection_congr fun i hi => (h.keeps_request (hal.lt i (.call (hpc i hi)))).1
  rcases h.calls with he | ⟨u, pc, he, hnext, hnew⟩
  · rw [he, hitems fun _ => id] at hk
    exact hk
  · rw [he, update_apply] at hk
    split at hk
    · subst u
      cases hnext with
      | goto hpc hgo =>
        rw [hitems fun i hi => by rw [hpc]; exact hgo.item hi] at hk
        rw [hpc]
        cases hgo with
        | connected => exact absurd rfl ha
        | notRunning h => rcases h with ⟨-, rfl, -⟩ | ⟨-, rfl, -⟩ <;> exact hk
        | start | refused | stopped | failed | decided | leave | panic => cases hk
        | distribute | submitClosed | submitOpen | busy | blockOpen | ctxFailed | expiring | expired | retry => exact hk
      | @candidates c r _ hpc hpc' =>
        rw [hpc, ← hk]
        rcases hpc' with rfl | ⟨f, rfl⟩ <;> exact congrArg Option.some (hnew r hpc).symm
      | send hpc =>
        rcases hpc with hpc | hpc <;> rw [hpc]
        all_goals
          rw [hitems fun i hi => by rw [hpc]; exact hi] at hk
          exact hk
      | receive hpc =>
        rw [hitems fun i hi => by rw [hpc]; exact hi] at hk
        rw [hpc]
        exact hk
      | finalize =>
        rw [hitems fun i hi => by rw [← hi]; exact (CallPc.item_resume ..).symm, CallPc.connection_resume] at hk
        exact hk
    · rw [hitems fun _ => id] at hk
      exact hk

end Held

end InferenceScheduler.Controller
