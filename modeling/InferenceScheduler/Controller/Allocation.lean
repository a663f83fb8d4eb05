/-
Which goroutine, channel or queue refers to which item, and that all of them
refer to items that were created (`allocated_reaches`).
-/
import InferenceScheduler.Controller.Controller

namespace InferenceScheduler.Controller

open Function (update update_apply update_of_ne)

/-- The item of a call's current attempt. -/
def CallPc.item : CallPc → Option Nat
  | .submit i | .submitSelect i | .block i | .blockSelect i | .failing i _ | .failed i | .await i
  | .expiring i _ | .expired i | .decide i _ => some i
  | .leaving src _ | .returned src _ => src
  | .idle | .connecting _ | .lifecycle _ | .candidates _ | .panicked => none

/-- The item `Run` is working on. -/
def RunPc.item : RunPc → Option Nat
  | .loadState i | .lookup i | .band i _ | .capacity i _ | .add i _ | .rejecting i _ | .dispatch i _ _
  | .remove i _ | .dispatched i _ | .draining i _ => some i
  | .unstarted | .select | .cycleBegin | .cycle _ _ | .flag | .drain | .evicting | .wait | .returned => none

/-- The items a worker has drained and not finalized yet. -/
def Worker.items : Worker → List Nat
  | .finalize i _ rest => i :: rest
  | .idle | .lookup _ | .process _ => []

@[simp] theorem Worker.items_evict (is : List Nat) : (Worker.evict is).items = is := by
  cases is <;> rfl

theorem Worker.mem_items_resume {w : Worker} {pc : Option FinalizePc} {i : Nat} (h : i ∈ (w.resume pc).items) :
    i ∈ w.items := by
  cases w with
  | finalize j _ rest =>
    cases pc with
    | some pc => exact h
    | none =>
      rw [Worker.resume, Worker.items_evict] at h
      exact List.mem_cons_of_mem _ h
  | idle | lookup _ | process _ => cases pc <;> exact h

theorem CallPc.item_resume (c : CallPc) (pc : Option FinalizePc) : (c.resume pc).item = c.item := by
  cases c <;> cases pc <;> rfl

theorem RunPc.item_resume {r : RunPc} {pc : Option FinalizePc} {i : Nat} (h : (r.resume pc).item = some i) :
    r.item = some i := by
  cases r <;> cases pc <;> first | exact h | cases h

variable {Tid : Type}

/-- Somebody refers to item `i`. -/
inductive Refers (s : State Tid) (i : Nat) : Prop
  | call {t} : (s.calls t).item = some i → Refers s i
  | chan : i ∈ s.enqueueChan → Refers s i
  | run : s.run.item = some i → Refers s i
  | queue {q} : i ∈ s.queues q → Refers s i
  | worker {p w} : i ∈ ((s.pools p).workers w).items → Refers s i

variable {f : FinalizePc}

theorem CallPc.item_of_finalizing {pc : CallPc} {i : Nat} (h : pc.finalizing = some (i, f)) : pc.item = some i := by
  cases pc <;> simp_all [CallPc.finalizing, CallPc.item]

theorem RunPc.item_of_finalizing {pc : RunPc} {i : Nat} (h : pc.finalizing = some (i, f)) : pc.item = some i := by
  cases pc <;> simp_all [RunPc.finalizing, RunPc.item]

theorem Worker.mem_of_finalizing {w : Worker} {i : Nat} (h : w.finalizing = some (i, f)) : i ∈ w.items := by
  cases w <;> simp_all [Worker.finalizing, Worker.items]

theorem Refers.of_finalizing {s : State Tid} {a : Agent Tid} {i : Nat} {pc : FinalizePc}
    (h : s.finalizing a = some (i, pc)) : Refers s i := by
  cases a with
  | call t => exact .call (CallPc.item_of_finalizing h)
  | run => exact .run (RunPc.item_of_finalizing h)
  | evictor w => exact .worker (Worker.mem_of_finalizing h)

/-- Items that were not created are untouched, and nobody refers to them. -/
structure Allocated (s : State Tid) : Prop where
  lt : ∀ i, Refers s i → i < s.nextItem
  untouched : ∀ i, s.nextItem ≤ i → s.items i = default

theorem CallGoto.item {s : State Tid} {t : Tid} {a : CallAct} {pc pc' : CallPc} (h : CallGoto s t a pc pc')
    {i : Nat} (hi : pc'.item = some i) : pc.item = some i := by
  cases h with
  | notRunning h => rcases h with ⟨-, rfl, -⟩ | ⟨-, rfl, -⟩ <;> exact hi
  | start | connected | refused | stopped | distribute | submitClosed | submitOpen | busy | blockOpen
  | ctxFailed | failed | expiring | expired | retry | decided | leave | panic =>
    first | exact hi | cases hi

theorem RunGoto.item {s : State Tid} {a : RunAct} {pc pc' : RunPc} (h : RunGoto s a pc pc') {i : Nat}
    (hi : pc'.item = some i) : pc.item = some i ∨ ∃ q, i ∈ s.queues q := by
  cases h with
  | pick _ h =>
    obtain ⟨-, q, -, hq⟩ := h
    cases hi
    exact .inr ⟨q, hq⟩
  | done | tick | discard | proceed | queue | noQueue | band | noBand | room | full | draining | levels
  | cycleEnd | skip | dispatch | dispatchFailed | removeFailed | evicted | returned =>
    first | exact .inl hi | cases hi

/-! ## What the operations refer to -/

section Refers

variable {s s' : State Tid} {i : Nat}

theorem Refers.congr (h : Refers s' i) (hcalls : s'.calls = s.calls) (hchan : s'.enqueueChan = s.enqueueChan)
    (hrun : s'.run = s.run) (hqueues : s'.queues = s.queues) (hpools : s'.pools = s.pools) : Refers s i := by
  cases h with
  | call h => exact .call (hcalls ▸ h)
  | chan h => exact .chan (hchan ▸ h)
  | run h => exact .run (hrun ▸ h)
  | queue h => exact .queue (hqueues ▸ h)
  | worker h => exact .worker (hpools ▸ h)

theorem Refers.setItem {j : Nat} {item : FlowItem Tid} (h : Refers (s.setItem j item) i) : Refers s i :=
  h.congr rfl rfl rfl rfl rfl

theorem Refers.setRun {pc : RunPc} (h : Refers { s with run := pc } i) : Refers s i ∨ pc.item = some i := by
  cases h with
  | call h => exact .inl (.call h)
  | chan h => exact .inl (.chan h)
  | run h => exact .inr h
  | queue h => exact .inl (.queue h)
  | worker h => exact .inl (.worker h)

theorem Refers.setChan {is : List Nat} (h : Refers { s with enqueueChan := is } i) : Refers s i ∨ i ∈ is := by
  cases h with
  | call h => exact .inl (.call h)
  | chan h => exact .inr h
  | run h => exact .inl (.run h)
  | queue h => exact .inl (.queue h)
  | worker h => exact .inl (.worker h)

theorem Refers.setQueue {q : Nat} {is : List Nat} (h : Refers (s.setQueue q is) i) : Refers s i ∨ i ∈ is := by
  cases h with
  | call h => exact .inl (.call h)
  | chan h => exact .inl (.chan h)
  | run h => exact .inl (.run h)
  | @queue q' h =>
    simp only [State.setQueue, update_apply] at h
    split at h
    · exact .inr h
    · exact .inl (.queue h)
  | worker h => exact .inl (.worker h)

variable {p : PoolId}

theorem Refers.setPool {pool : Pool} (h : Refers (s.setPool p pool) i) :
    Refers s i ∨ ∃ w, i ∈ (pool.workers w).items := by
  cases h with
  | call h => exact .inl (.call h)
  | chan h => exact .inl (.chan h)
  | run h => exact .inl (.run h)
  | queue h => exact .inl (.queue h)
  | @worker p' w h =>
    simp only [State.setPool, update_apply] at h
    split at h
    · exact .inr ⟨w, h⟩
    · exact .inl (.worker h)

theorem Refers.setWorker {w : Fin 4} {worker : Worker} (h : Refers (s.setWorker p w worker) i) :
    Refers s i ∨ i ∈ worker.items := by
  rcases h.setPool with h | ⟨w', h⟩
  · exact .inl h
  · simp only [update_apply] at h
    split at h
    · exact .inr h
    · exact .inl (.worker h)

theorem Refers.startWorker (h : Refers s.startWorker i) : Refers s i := by
  unfold State.startWorker at h
  split at h
  · rcases h.setRun with h | h
    · rcases h.setPool with h | ⟨w, h⟩
      · exact h
      · exact .worker h
    · cases h
  · exact h

theorem Refers.newItem {r : Request} (h : Refers (s.newItem r) i) : Refers s i :=
  h.congr rfl rfl rfl rfl rfl

variable [DecidableEq Tid]

theorem Refers.goto {t : Tid} {pc : CallPc} (h : Refers (s.goto t pc) i) : Refers s i ∨ pc.item = some i := by
  cases h with
  | @call t' h =>
    simp only [State.goto, update_apply] at h
    split at h
    · exact .inr h
    · exact .inl (.call h)
  | chan h => exact .inl (.chan h)
  | run h => exact .inl (.run h)
  | queue h => exact .inl (.queue h)
  | worker h => exact .inl (.worker h)

theorem CallMoves.refers {t : Tid} {a : CallAct} (h : CallMoves s t a s') (hi : Refers s' i) :
    Refers s i ∨ i = s.nextItem ∧ s'.nextItem = s.nextItem + 1 := by
  cases h with
  | goto hpc hgo =>
    rcases hi.goto with hi | hi
    · exact .inl hi
    · exact .inl (.call (t := t) (hpc ▸ hgo.item hi))
  | expire => exact .inl (hi.congr rfl rfl rfl rfl rfl)
  | @candidates c r =>
    have hnext : (if c = .noShards then s.newItem r else (s.newItem r).startWorker).nextItem = s.nextItem + 1 := by
      split
      · rfl
      · unfold State.startWorker
        split <;> rfl
    rcases hi.goto with hi | hi
    · left
      split at hi
      · exact hi.newItem
      · exact hi.startWorker.newItem
    · refine .inr ⟨?_, hnext⟩
      split at hi <;> exact (Option.some.inj hi).symm
  | sendBuffer hpc hsel =>
    have hold : Refers s i ∨ (s.calls t).item = some i := by
      rcases hi.goto with hi | hi
      · rcases hi.setChan with hi | hi
        · exact .inl hi.setItem
        · rcases List.mem_append.mp hi with hi | hi
          · exact .inl (.chan hi)
          · rcases hsel with rfl | rfl <;> simp_all [CallPc.item]
      · rcases hsel with rfl | rfl <;> simp_all [CallPc.item]
    exact .inl (hold.elim id .call)
  | sendRun hpc hsel =>
    have hold : Refers s i ∨ (s.calls t).item = some i := by
      rcases hi.goto with hi | hi
      · rcases hi.setRun with hi | hi
        · exact .inl hi.setItem
        · rcases hsel with rfl | rfl <;> simp_all [CallPc.item, RunPc.item]
      · rcases hsel with rfl | rfl <;> simp_all [CallPc.item]
    exact .inl (hold.elim id .call)
  | sendDrain hpc =>
    have hold : Refers s i ∨ (s.calls t).item = some i := by
      rcases hi.goto with hi | hi
      · rcases hi.setRun with hi | hi
        · exact .inl hi.setItem
        · simp_all [CallPc.item, RunPc.item]
      · simp_all [CallPc.item]
    exact .inl (hold.elim id .call)
  | receive hpc =>
    rcases hi.goto with hi | hi
    · exact .inl hi.setItem
    · exact .inl (.call (t := t) (by simp_all [CallPc.item]))

omit [DecidableEq Tid] in
theorem RunMoves.refers {a : RunAct} (h : RunMoves s a s') (hi : Refers s' i) : Refers s i := by
  cases h with
  | goto hpc hgo =>
    rcases hi.setRun with hi | hi
    · exact hi
    · rcases hgo.item hi with hi | ⟨q, hi⟩
      · exact .run (hpc ▸ hi)
      · exact .queue hi
  | @receive j rest hpc hchan | @drain j rest hpc hchan =>
    rcases Refers.setRun (s := { s with enqueueChan := rest }) hi with hi | hi
    · rcases hi.setChan with hi | hi
      · exact hi
      · exact .chan (hchan ▸ List.mem_cons_of_mem _ hi)
    · cases hi
      exact .chan (hchan ▸ List.mem_cons_self)
  | @add j q hpc =>
    have hj : Refers s j := .run (hpc ▸ rfl)
    rcases hi.setRun with hi | hi
    · rcases hi.setItem.setQueue with hi | hi
      · exact hi
      · rcases List.mem_append.mp hi with hi | hi
        · exact .queue hi
        · obtain rfl := List.mem_singleton.mp hi
          exact hj
    · cases hi
  | @remove j q hpc hj =>
    rcases hi.setRun with hi | hi
    · rcases hi.setItem.setQueue with hi | hi
      · exact hi
      · exact .queue (List.mem_of_mem_erase hi)
    · cases hi
      exact .queue hj
  | flag =>
    rcases Refers.setRun (s := { s with isShuttingDown := true }) hi with hi | hi
    · exact hi.congr rfl rfl rfl rfl rfl
    · cases hi
  | drained =>
    rcases hi.setRun with hi | hi
    · rcases hi.setPool with hi | ⟨w, hi⟩
      · exact hi
      · exact .worker hi
    · cases hi

omit [DecidableEq Tid] in
theorem PoolMoves.refers {a : PoolAct} (h : PoolMoves s p a s') (hi : Refers s' i) : Refers s i := by
  cases h with
  | goto | band =>
    rcases hi.setPool with hi | ⟨w, hi⟩
    · exact hi
    · exact .worker hi
  | take =>
    rcases hi.setPool with hi | ⟨w', hi⟩
    · exact hi
    · simp only [update_apply] at hi
      split at hi
      · cases hi
      · exact .worker hi
  | queue | noQueue =>
    rcases hi.setWorker with hi | hi
    · exact hi
    · cases hi
  | cleanup =>
    rcases hi.setWorker with hi | hi
    · rcases hi.setQueue with hi | hi
      · exact hi
      · exact .queue (List.mem_of_mem_filter hi)
    · cases hi
  | drain =>
    rcases hi.setWorker with hi | hi
    · rcases hi.setQueue with hi | hi
      · exact hi
      · cases hi
    · rw [Worker.items_evict] at hi
      exact .queue hi

theorem Refers.resume {a : Agent Tid} {pc : Option FinalizePc} (h : Refers (s.resume a pc) i) : Refers s i := by
  cases a with
  | call t =>
    rcases h.goto with h | h
    · exact h
    · exact .call (CallPc.item_resume .. ▸ h)
  | run =>
    rcases h.setRun with h | h
    · exact h
    · exact .run (RunPc.item_resume h)
  | evictor w =>
    rcases h.setWorker with h | h
    · exact h
    · exact .worker (Worker.mem_items_resume h)

theorem Moves.refers {a : Act Tid} (h : Moves s a s') (hi : Refers s' i) :
    Refers s i ∨ i = s.nextItem ∧ s'.nextItem = s.nextItem + 1 := by
  cases h with
  | stop | cancel => exact .inl (hi.congr rfl rfl rfl rfl rfl)
  | call h => exact h.refers hi
  | run h | pool h => exact .inl (h.refers hi)
  | finalize => exact .inl hi.resume.setItem

end Refers

/-! ## What happens to the items -/

/-- A change of an item that has no part in its finalization. -/
structure Inert (item item' : FlowItem Tid) : Prop where
  once : item'.once = item.once
  finalState : item'.finalState = item.finalState
  sent : item'.sent = item.sent
  closed : item'.closed = item.closed
  dispatched : item.dispatched = true → item'.dispatched = true

theorem Inert.refl (item : FlowItem Tid) : Inert item item := ⟨rfl, rfl, rfl, rfl, id⟩

/-- What a step outside the finalization calls does to the items. -/
inductive ItemEffect (s s' : State Tid) : Prop
  | none : s'.items = s.items → s'.nextItem = s.nextItem → ItemEffect s s'
  | inert {i item} : s'.items = update s.items i item → s'.nextItem = s.nextItem → Refers s i →
      Inert (s.items i) item → item.key = (s.items i).key ∧ item.byteSize = (s.items i).byteSize →
      ItemEffect s s'
  | new {r : Request} : s'.items = update s.items s.nextItem { key := r.key, byteSize := r.byteSize } →
      s'.nextItem = s.nextItem + 1 → ItemEffect s s'

section Items

variable {s s' : State Tid}

theorem State.startWorker_items (s : State Tid) : s.startWorker.items = s.items := by
  unfold State.startWorker
  split <;> rfl

theorem State.startWorker_nextItem (s : State Tid) : s.startWorker.nextItem = s.nextItem := by
  unfold State.startWorker
  split <;> rfl

theorem RunMoves.items {a : RunAct} (h : RunMoves s a s') : ItemEffect s s' := by
  cases h with
  | goto | receive | flag | drain | drained => exact .none rfl rfl
  | add hpc => exact .inert rfl rfl (.run (by rw [hpc]; rfl)) ⟨rfl, rfl, rfl, rfl, id⟩ ⟨rfl, rfl⟩
  | remove hpc => exact .inert rfl rfl (.run (by rw [hpc]; rfl)) ⟨rfl, rfl, rfl, rfl, fun _ => rfl⟩ ⟨rfl, rfl⟩

theorem PoolMoves.items {p : PoolId} {a : PoolAct} (h : PoolMoves s p a s') :
    s'.items = s.items ∧ s'.nextItem = s.nextItem := by
  cases h <;> exact ⟨rfl, rfl⟩

variable [DecidableEq Tid]

theorem CallMoves.items {t : Tid} {a : CallAct} (h : CallMoves s t a s') : ItemEffect s s' := by
  cases h with
  | goto | expire => exact .none rfl rfl
  | @candidates c r hpc =>
    by_cases hc : c = .noShards
    · rw [if_pos hc]
      exact .new (r := r) rfl rfl
    · rw [if_neg hc]
      exact .new (r := r) (State.startWorker_items _) (State.startWorker_nextItem _)
  | sendBuffer hpc hsel | sendRun hpc hsel =>
    refine .inert rfl rfl (.call (t := t) ?_) ⟨rfl, rfl, rfl, rfl, id⟩ ⟨rfl, rfl⟩
    rw [hpc]
    rcases hsel with rfl | rfl <;> rfl
  | sendDrain hpc | receive hpc =>
    exact .inert rfl rfl (.call (t := t) (by rw [hpc]; rfl)) ⟨rfl, rfl, rfl, rfl, id⟩ ⟨rfl, rfl⟩

variable {a : Act Tid}

theorem Moves.items (h : Moves s a s') (ha : ∀ g, a ≠ .finalize g) : ItemEffect s s' := by
  cases h with
  | stop | cancel => exact .none rfl rfl
  | call h | run h => exact h.items
  | pool h => exact .none h.items.1 h.items.2
  | finalize => exact absurd rfl (ha _)

omit [DecidableEq Tid] in
theorem ItemEffect.inert_all (h : ItemEffect s s') (hs : Allocated s) (i : Nat) :
    Inert (s.items i) (s'.items i) := by
  cases h with
  | none h => rw [h]; exact .refl _
  | @inert j item h _ _ hin =>
    rw [h, update_apply]
    split
    · subst i; exact hin
    · exact .refl _
  | new h =>
    rw [h, update_apply]
    split
    · rw [hs.untouched i (by omega)]
      exact ⟨rfl, rfl, rfl, rfl, nofun⟩
    · exact .refl _

@[simp] theorem State.resume_items (s : State Tid) (a : Agent Tid) (pc : Option FinalizePc) :
    (s.resume a pc).items = s.items := by
  cases a <;> rfl

@[simp] theorem State.resume_nextItem (s : State Tid) (a : Agent Tid) (pc : Option FinalizePc) :
    (s.resume a pc).nextItem = s.nextItem := by
  cases a <;> rfl

theorem Moves.keeps_request (h : Moves s a s') {i : Nat} (hi : i < s.nextItem) :
    (s'.items i).key = (s.items i).key ∧ (s'.items i).byteSize = (s.items i).byteSize := by
  by_cases ha : ∀ g, a ≠ .finalize g
  · cases h.items ha with
    | none h => rw [h]; exact ⟨rfl, rfl⟩
    | inert h _ _ _ hreq =>
      rw [h, update_apply]
      split
      · subst i; exact hreq
      · exact ⟨rfl, rfl⟩
    | new h =>
      rw [h, update_of_ne (Nat.ne_of_lt hi)]
      exact ⟨rfl, rfl⟩
  · cases h with
    | stop | cancel | call | run | pool => simp at ha
    | @finalize g j pc item next _ hstep =>
      rw [State.resume_items]
      simp only [State.setItem, update_apply]
      split
      · subst i
        unfold finalizeStep at hstep
        split at hstep
        · split at hstep
          · split at hstep <;> cases hstep <;> exact ⟨rfl, rfl⟩
          · cases hstep
          · cases hstep; exact ⟨rfl, rfl⟩
        · cases hstep; exact ⟨rfl, rfl⟩
        · cases hstep; exact ⟨rfl, rfl⟩
        · split at hstep
          · cases hstep; exact ⟨rfl, rfl⟩
          · cases hstep
        · cases hstep; exact ⟨rfl, rfl⟩
      · exact ⟨rfl, rfl⟩

theorem Allocated.step (hs : Allocated s) (h : Moves s a s') : Allocated s' := by
  have hitems : s.nextItem ≤ s'.nextItem ∧ ∀ i, s'.nextItem ≤ i → s'.items i = s.items i := by
    by_cases ha : ∀ g, a ≠ .finalize g
    · cases h.items ha with
      | none hi hn => exact ⟨hn.ge, fun i _ => by rw [hi]⟩
      | inert hi hn hj =>
        refine ⟨hn.ge, fun i hle => ?_⟩
        rw [hi, update_of_ne]
        have := hs.lt _ hj
        omega
      | new hi hn =>
        refine ⟨by omega, fun i hle => ?_⟩
        rw [hi, update_of_ne]
        omega
    · cases h with
      | stop | cancel | call | run | pool => simp at ha
      | @finalize g j pc item next hfin _ =>
        have hj : j < s.nextItem := hs.lt _ (.of_finalizing hfin)
        simp only [State.resume_items, State.resume_nextItem]
        refine ⟨Nat.le_refl _, fun i (hi : s.nextItem ≤ i) => ?_⟩
        exact update_of_ne (by omega) ..
  refine ⟨fun i hi => ?_, fun i hi => ?_⟩
  · rcases h.refers hi with hi | ⟨rfl, hn⟩
    · have := hs.lt i hi
      omega
    · omega
  · rw [hitems.2 i hi]
    exact hs.untouched i (hitems.1.trans hi)

theorem allocated_reaches {n : Nat} {ok : State Tid → Act Tid → Prop}
    (h : Reaches step ok (State.new n) s) : Allocated s := by
  refine h.invariant Allocated ⟨fun i hi => ?_, fun i _ => rfl⟩ fun s a s' hI _ hs => hI.step (step_moves hs)
  cases hi with
  | call h | chan h | run h | queue h | worker h => cases h

end Items

end InferenceScheduler.Controller
