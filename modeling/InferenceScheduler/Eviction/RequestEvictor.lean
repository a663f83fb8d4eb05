/-
The request evictor (`pkg/epp/flowcontrol/eviction/plugin.go`, `evictor.go`,
`eviction_registry.go`), with any number of calls in flight. Each step is one
operation on the queue, on the registry or on the evictor's map.

Between popping a request and evicting it, `EvictN` has the request in no map
at all: a cleanup that runs then has nothing to remove, and what `EvictN` does
afterwards stays.
-/
import InferenceScheduler.Eviction.Queue
import InferenceScheduler.Lib.Interleave
import InferenceScheduler.Lib.Text

namespace InferenceScheduler.Eviction

open Function (update update_apply update_of_ne update_self)
open Interleave (Label State Machine Pending call_run_self pending_run step step_cases)

/-! ## Steps -/

/-- The repository's two, and any other, which keeps nothing of a request and may fail. -/
inductive Evictor
  | noOp
  | immediateResponse
  | external
  deriving DecidableEq

structure Config where
  policies : Policies
  evictor : Evictor
  maxCap : Nat

/-- `closeOnce` maps a request to its `sync.Once`, whose flag is in `onces`; `waiting`
are the goroutines that wait for the end of a request's context. -/
structure Evicting where
  queue : EvictionQueue
  channels : String → Option Nat
  closeOnce : String → Option Nat
  onces : Heap Bool
  closed : List Nat
  nextCh : Nat
  waiting : List String
  returned : List (List String)

def Evicting.new : Evicting :=
  { queue := EvictionQueue.new, channels := fun _ => none, closeOnce := fun _ => none, onces := ⟨fun _ => false, 0⟩,
    closed := [], nextCh := 0, waiting := [], returned := [] }

/-- The atomic steps of the calls. -/
inductive Instr
  /-- `queue.Track`. -/
  | track (item : EvictionItem)
  /-- `evictionRegistry.Register`. -/
  | register (requestID : String) (ch : Nat)
  /-- The goroutine that waits for the context is started. -/
  | await (requestID : String)
  /-- The three steps of `cleanupRequest`. -/
  | untrack (requestID : String)
  | deregister (requestID : String)
  | cleanup (requestID : String)
  /-- The rounds of `EvictN` that are left, and what it has evicted. -/
  | pop (rounds : Nat) (evicted : List String)
  /-- `Evict` up to and with `closeOnce.LoadOrStore`. -/
  | evict (item : EvictionItem) (rounds : Nat) (evicted : List String)
  /-- `once.Do`, which closes the channel. -/
  | close (once ch : Nat)
  deriving DecidableEq

/-- What `PreRequest` reads: `target` is the first endpoint of the primary profile. -/
structure PreRequest where
  requestID : String
  priority : Int
  target : Option (String × String)
  now : Int
  deriving DecidableEq

/-- What starts a call. -/
inductive Start
  | preRequest (r : PreRequest)
  | responseBody (requestID : String) (endOfStream : Bool)
  /-- The context of a waiting goroutine is done. -/
  | ctxDone (goroutine : Nat)
  | evictN (n : Int)
  deriving DecidableEq

def cleanupRequest (requestID : String) : List Instr := [.untrack requestID, .deregister requestID, .cleanup requestID]

section Steps

variable (cfg : Config)

namespace Evicting

variable (s : Evicting)

/-- What a call does before its first step, and its steps. A request without an ID or
a target is not tracked; `EvictN` makes its result first. -/
def start : Start → Option (Evicting × List Instr)
  | .preRequest r =>
    match r.target with
    | none => some (s, [])
    | some (address, port) =>
      if r.requestID = "" then some (s, [])
      else
        let item : EvictionItem :=
          { requestID := r.requestID, priority := r.priority, dispatchTime := r.now,
            targetURL := "http://" ++ String.ofList (joinHostPort address.toList port.toList), evictCh := some s.nextCh }
        some ({ s with nextCh := s.nextCh + 1 }, [.track item, .register r.requestID s.nextCh, .await r.requestID])
  | .responseBody requestID endOfStream =>
    some (s, if endOfStream ∧ requestID ≠ "" then cleanupRequest requestID else [])
  | .ctxDone goroutine =>
    (s.waiting[goroutine]?).map fun requestID =>
      ({ s with waiting := s.waiting.eraseIdx goroutine }, cleanupRequest requestID)
  | .evictN n => if EvictionQueue.makes cfg.maxCap n then some (s, [.pop n.toNat []]) else none

/-- `Evict` up to the closing of the channel: the steps left of it, or its error. -/
def evict (item : EvictionItem) (fails : Bool) : Evicting × Option (List Instr) :=
  match cfg.evictor with
  | .noOp => (s, some [])
  | .external => (s, if fails then none else some [])
  | .immediateResponse =>
    match item.evictCh with
    | none => (s, none)
    | some ch =>
      match s.closeOnce item.requestID with
      | some once => (s, some [.close once ch])
      | none =>
        ({ s with
            closeOnce := update s.closeOnce item.requestID (some s.onces.next)
            onces := s.onces.alloc false },
          some [.close s.onces.next ch])

/-- One step. `fails` is whether an external evictor returns an error. -/
def exec (i : Instr) (fails : Bool) : Option (Evicting × List Instr) :=
  match i with
  | .track item => (s.queue.track cfg.policies item).map fun queue => ({ s with queue }, [])
  | .register requestID ch => some ({ s with channels := update s.channels requestID (some ch) }, [])
  | .await requestID => some ({ s with waiting := s.waiting ++ [requestID] }, [])
  | .untrack requestID => (s.queue.untrack cfg.policies requestID).map fun queue => ({ s with queue }, [])
  | .deregister requestID => some ({ s with channels := update s.channels requestID none }, [])
  | .cleanup requestID =>
    if cfg.evictor = .immediateResponse then
      some ({ s with closeOnce := update s.closeOnce requestID none }, [])
    else some (s, [])
  | .pop 0 evicted => some ({ s with returned := evicted :: s.returned }, [])
  | .pop (rounds + 1) evicted =>
    (s.queue.popN cfg.policies cfg.maxCap 1).map fun r =>
      match r.1 with
      | [] => ({ s with queue := r.2, returned := evicted :: s.returned }, [])
      | item :: _ => ({ s with queue := r.2 }, [.evict item rounds evicted])
  | .evict item rounds evicted =>
    match s.evict cfg item fails with
    | (s, none) => some (s, [.track item, .pop rounds evicted])
    | (s, some steps) => some (s, steps ++ [.pop rounds (evicted ++ [item.requestID])])
  | .close once ch =>
    if s.onces.obj once then some (s, [])
    else if ch ∈ s.closed then none
    else some ({ s with onces := s.onces.set once true, closed := ch :: s.closed }, [])

end Evicting

def machine : Machine Evicting Instr Start Bool where
  start := Evicting.start cfg
  exec := Evicting.exec cfg

end Steps

/-- No call yet. -/
def init : State Evicting Instr := { shared := Evicting.new, calls := [] }

/-- A `PreRequest` has not yet tracked and registered the request, or an `EvictN` has
popped it and not yet dealt with it. -/
def Instr.holds (requestID : String) : Instr → Bool
  | .track item | .evict item _ _ => item.requestID = requestID
  | .register id _ => id = requestID
  | _ => false

/-- No call has the request in its hands. -/
def unheld (s : State Evicting Instr) (requestID : String) : Bool :=
  s.calls.all fun c => c.all fun i => !i.holds requestID

/-- The call that starts is not a `PreRequest` of the request. -/
def notDispatched (requestID : String) (_ : State Evicting Instr) : Label Start Bool → Prop
  | .start (.preRequest r) => r.requestID ≠ requestID
  | _ => True

instance (requestID : String) (s : State Evicting Instr) : (l : Label Start Bool) → Decidable (notDispatched requestID s l)
  | .start (.preRequest r) => inferInstanceAs (Decidable (r.requestID ≠ requestID))
  | .start (.responseBody _ _) => inferInstanceAs (Decidable True)
  | .start (.ctxDone _) => inferInstanceAs (Decidable True)
  | .start (.evictN _) => inferInstanceAs (Decidable True)
  | .run _ _ => inferInstanceAs (Decidable True)

/-- **Nothing of the request is left**, in the queue or in any of the maps. -/
structure Released (s : Evicting) (requestID : String) : Prop where
  notQueued : ∀ item ∈ s.queue.items, item.requestID ≠ requestID
  notInFlight : s.queue.allInFlight requestID = none
  notRegistered : s.channels requestID = none
  noOnce : s.closeOnce requestID = none

/-! ## One step -/

section Exec

variable {cfg : Config} {s s' : Evicting} {i : Instr} {fails : Bool} {more : List Instr} {requestID : String}
  {tracked : String → Option EvictionItem}

variable (cfg) in
theorem evict_frame (s : Evicting) (item : EvictionItem) (fails : Bool) :
    (s.evict cfg item fails).1.queue = s.queue ∧ (s.evict cfg item fails).1.channels = s.channels ∧
      (∀ id ≠ item.requestID, (s.evict cfg item fails).1.closeOnce id = s.closeOnce id) ∧
      (cfg.evictor ≠ .immediateResponse → (s.evict cfg item fails).1.closeOnce = s.closeOnce) := by
  unfold Evicting.evict
  split
  · exact ⟨rfl, rfl, fun _ _ => rfl, fun _ => rfl⟩
  · exact ⟨rfl, rfl, fun _ _ => rfl, fun _ => rfl⟩
  · rename_i he
    split
    · exact ⟨rfl, rfl, fun _ _ => rfl, fun _ => rfl⟩
    · split
      · exact ⟨rfl, rfl, fun _ _ => rfl, fun _ => rfl⟩
      · exact ⟨rfl, rfl, fun id hid => update_of_ne hid .., fun hne => absurd he hne⟩

theorem evict_steps {item : EvictionItem} {steps : List Instr} (h : (s.evict cfg item fails).2 = some steps) :
    ∀ j ∈ steps, ∀ id, j.holds id = false := by
  unfold Evicting.evict at h
  split at h
  · cases h
    exact nofun
  · split at h
    · cases h
    · cases h
      exact nofun
  · split at h
    · cases h
    · split at h
      · cases h
        intro j hj id
        rw [List.mem_singleton.mp hj]
        rfl
      · cases h
        intro j hj id
        rw [List.mem_singleton.mp hj]
        rfl

/-- **What a step does to the queue**: an untracked ID that the step does not hold
stays so. -/
theorem exec_queue (h : s.queue.Represents cfg.policies tracked) (hx : s.exec cfg i fails = some (s', more)) :
    ∃ tracked', s'.queue.Represents cfg.policies tracked' ∧
      ∀ id, tracked id = none → i.holds id = false → tracked' id = none ∧ ∀ j ∈ more, j.holds id = false := by
  have hstay : ∃ tracked', s.queue.Represents cfg.policies tracked' ∧ ∀ id, tracked id = none → i.holds id = false →
      tracked' id = none ∧ ∀ j ∈ ([] : List Instr), j.holds id = false :=
    ⟨tracked, h, fun id hid _ => ⟨hid, nofun⟩⟩
  cases i with
  | track item =>
    obtain ⟨q', hq, hr, -⟩ := h.track item
    simp only [Evicting.exec, hq, Option.map_some, Option.some.injEq, Prod.mk.injEq] at hx
    obtain ⟨rfl, rfl⟩ := hx
    refine ⟨_, hr, fun id hid hheld => ⟨?_, nofun⟩⟩
    rw [update_of_ne (Ne.symm (of_decide_eq_false hheld)), hid]
  | untrack id' =>
    obtain ⟨q', hq, hr, -⟩ := h.untrack id'
    simp only [Evicting.exec, hq, Option.map_some, Option.some.injEq, Prod.mk.injEq] at hx
    obtain ⟨rfl, rfl⟩ := hx
    refine ⟨_, hr, fun id hid _ => ⟨?_, nofun⟩⟩
    rw [update_apply, hid, ite_self]
  | pop rounds evicted =>
    cases rounds with
    | zero =>
      cases hx
      exact hstay
    | succ rounds =>
      simp only [Evicting.exec, Option.map_eq_some_iff] at hx
      obtain ⟨⟨items, q'⟩, hpop, hx⟩ := hx
      rcases h.popN_one hpop with ⟨rfl, rfl⟩ | ⟨item, rfl, hitem, hr⟩
      · cases hx
        exact hstay
      · cases hx
        refine ⟨_, hr, fun id hid _ => ⟨by rw [update_apply, hid, ite_self], fun j hj => ?_⟩⟩
        rw [List.mem_singleton.mp hj]
        refine decide_eq_false fun he => ?_
        rw [← he, ((h.contents item).mp hitem).1] at hid
        cases hid
  | evict item rounds evicted =>
    have hframe := evict_frame cfg s item fails
    simp only [Evicting.exec] at hx
    split at hx
    · rename_i s₁ hs
      rw [hs] at hframe
      cases hx
      refine ⟨tracked, by rw [hframe.1]; exact h, fun id hid hheld => ⟨hid, fun j hj => ?_⟩⟩
      rcases List.mem_cons.mp hj with rfl | hj
      · exact hheld
      · rw [List.mem_singleton.mp hj]
        rfl
    · rename_i s₁ steps hs
      have hsome : (s.evict cfg item fails).2 = some steps := by rw [hs]
      have hsteps := evict_steps hsome
      rw [hs] at hframe
      cases hx
      refine ⟨tracked, by rw [hframe.1]; exact h, fun id hid hheld => ⟨hid, fun j hj => ?_⟩⟩
      rcases List.mem_append.mp hj with hj | hj
      · exact hsteps j hj id
      · rw [List.mem_singleton.mp hj]
        rfl
  | register | await | deregister =>
    cases hx
    exact hstay
  | cleanup =>
    simp only [Evicting.exec] at hx
    split at hx
    · cases hx
      exact hstay
    · cases hx
      exact hstay
  | close once ch =>
    simp only [Evicting.exec] at hx
    split at hx
    · cases hx
      exact hstay
    · split at hx
      · cases hx
      · cases hx
        exact hstay

/-- **What a step does to the registry and the evictor's map**: an ID without an
entry that the step does not hold gets none. -/
theorem exec_maps (hx : s.exec cfg i fails = some (s', more)) :
    (∀ id, i.holds id = false → (s.channels id = none → s'.channels id = none) ∧
      (s.closeOnce id = none → s'.closeOnce id = none)) ∧
    (cfg.evictor ≠ .immediateResponse → s'.closeOnce = s.closeOnce) := by
  have hstay : (∀ id, i.holds id = false → (s.channels id = none → s.channels id = none) ∧
      (s.closeOnce id = none → s.closeOnce id = none)) ∧
      (cfg.evictor ≠ .immediateResponse → s.closeOnce = s.closeOnce) := by simp
  cases i with
  | register id' ch =>
    cases hx
    refine ⟨fun id hheld => ⟨fun hid => ?_, fun hid => hid⟩, fun _ => rfl⟩
    exact (update_of_ne (Ne.symm (of_decide_eq_false hheld)) ..).trans hid
  | deregister id' =>
    cases hx
    exact ⟨fun id _ => ⟨fun hid => by simp [update_apply, hid], fun hid => hid⟩, fun _ => rfl⟩
  | cleanup id' =>
    simp only [Evicting.exec] at hx
    split at hx
    · rename_i he
      cases hx
      exact ⟨fun id _ => ⟨fun hid => hid, fun hid => by simp [update_apply, hid]⟩, fun hne => absurd he hne⟩
    · cases hx
      exact hstay
  | evict item rounds evicted =>
    have hframe := evict_frame cfg s item fails
    have hs' : s' = (s.evict cfg item fails).1 := by
      simp only [Evicting.exec] at hx
      split at hx
      · rename_i s₁ hs
        cases hx
        rw [hs]
      · rename_i s₁ steps hs
        cases hx
        rw [hs]
    rw [hs']
    refine ⟨fun id hheld => ⟨fun hid => ?_, fun hid => ?_⟩, hframe.2.2.2⟩
    · rw [hframe.2.1, hid]
    · rw [hframe.2.2.1 id (Ne.symm (of_decide_eq_false hheld)), hid]
  | track item | untrack id' =>
    simp only [Evicting.exec, Option.map_eq_some_iff] at hx
    obtain ⟨q, -, hx⟩ := hx
    cases hx
    exact hstay
  | await =>
    cases hx
    exact hstay
  | pop rounds evicted =>
    cases rounds with
    | zero =>
      cases hx
      exact hstay
    | succ rounds =>
      simp only [Evicting.exec, Option.map_eq_some_iff] at hx
      obtain ⟨⟨items, q'⟩, -, hx⟩ := hx
      split at hx
      · cases hx
        exact hstay
      · cases hx
        exact hstay
  | close once ch =>
    simp only [Evicting.exec] at hx
    split at hx
    · cases hx
      exact hstay
    · split at hx
      · cases hx
      · cases hx
        exact hstay

theorem cleanupRequest_holds (id requestID : String) : ∀ j ∈ cleanupRequest id, j.holds requestID = false := by
  intro j hj
  simp only [cleanupRequest, List.mem_cons, List.not_mem_nil, or_false] at hj
  rcases hj with rfl | rfl | rfl <;> rfl

theorem start_frame {b : Start} {todo : List Instr} (h : s.start cfg b = some (s', todo)) :
    s'.queue = s.queue ∧ s'.channels = s.channels ∧ s'.closeOnce = s.closeOnce ∧
      ∀ id, (∀ r, b = .preRequest r → r.requestID ≠ id) → ∀ j ∈ todo, j.holds id = false := by
  cases b with
  | preRequest r =>
    simp only [Evicting.start] at h
    split at h
    · cases h
      exact ⟨rfl, rfl, rfl, nofun⟩
    · split at h
      · cases h
        exact ⟨rfl, rfl, rfl, nofun⟩
      · cases h
        refine ⟨rfl, rfl, rfl, fun id hid j hj => ?_⟩
        have hne := hid r rfl
        simp only [List.mem_cons, List.not_mem_nil, or_false] at hj
        rcases hj with rfl | rfl | rfl
        · exact decide_eq_false hne
        · exact decide_eq_false hne
        · rfl
  | responseBody id' endOfStream =>
    cases h
    refine ⟨rfl, rfl, rfl, fun id _ j hj => ?_⟩
    split at hj
    · exact cleanupRequest_holds id' id j hj
    · cases hj
  | ctxDone goroutine =>
    obtain ⟨id', -, h⟩ := Option.map_eq_some_iff.mp h
    cases h
    exact ⟨rfl, rfl, rfl, fun id _ => cleanupRequest_holds id' id⟩
  | evictN n =>
    simp only [Evicting.start] at h
    split at h
    · cases h
      refine ⟨rfl, rfl, rfl, fun id _ j hj => ?_⟩
      rw [List.mem_singleton.mp hj]
      rfl
    · cases h

end Exec

/-! ## Runs -/

section Runs

variable {cfg : Config} {s s' s₁ s₂ : State Evicting Instr} {requestID : String} {k : Nat}

/-- The queue holds some record of calls, and only the evictor that closes channels
has entries in its map. -/
structure Inv (cfg : Config) (s : State Evicting Instr) : Prop where
  queue : ∃ tracked, s.shared.queue.Represents cfg.policies tracked
  once : cfg.evictor ≠ .immediateResponse → ∀ id, s.shared.closeOnce id = none

theorem inv_of_reaches {ok : State Evicting Instr → Label Start Bool → Prop}
    (h : Reaches (step (machine cfg)) ok init s) : Inv cfg s := by
  refine h.invariant (Inv cfg) ⟨⟨_, EvictionQueue.new_represents⟩, fun _ _ => rfl⟩ fun s l s' hs _ hstep => ?_
  obtain ⟨tracked, hr⟩ := hs.queue
  rcases step_cases hstep with ⟨b, x, todo, -, hb, rfl⟩ | ⟨k, c, i, todo, x, more, -, -, hx, rfl⟩
  · obtain ⟨hq, -, ho, -⟩ := start_frame hb
    exact ⟨⟨tracked, by rw [hq]; exact hr⟩, fun hne => by rw [ho]; exact hs.once hne⟩
  · obtain ⟨tracked', hr', -⟩ := exec_queue hr hx
    exact ⟨⟨tracked', hr'⟩, fun hne => by rw [(exec_maps hx).2 hne]; exact hs.once hne⟩

/-- How far the cleanup at place `k` has got, and what is gone by then. -/
inductive Cleaning (s : State Evicting Instr) (requestID : String) (k : Nat) : Prop
  | untracked (h : s.calls[k]? = some [.deregister requestID, .cleanup requestID])
  | deregistered (h : s.calls[k]? = some [.cleanup requestID]) (hc : s.shared.channels requestID = none)
  | done (h : s.calls[k]? = some []) (hc : s.shared.channels requestID = none)
    (ho : s.shared.closeOnce requestID = none)

/-- No call has the request in its hands, and the cleanup goes on. -/
structure Untracked (cfg : Config) (requestID : String) (k : Nat) (s : State Evicting Instr) : Prop where
  queue : ∃ tracked, s.shared.queue.Represents cfg.policies tracked ∧ tracked requestID = none
  unheld : ∀ i, Pending s i → i.holds requestID = false
  once : cfg.evictor ≠ .immediateResponse → s.shared.closeOnce requestID = none
  cleaning : Cleaning s requestID k

theorem unheld_iff : unheld s requestID = true ↔ ∀ i, Pending s i → i.holds requestID = false := by
  simp only [unheld, List.all_eq_true, Bool.not_eq_true', Pending]
  constructor
  · rintro h i ⟨c, hc, hi⟩
    exact h c hc i hi
  · intro h c hc i hi
    exact h i ⟨c, hc, hi⟩

theorem untracked_of_cleanup {fails : Bool} (h : Inv cfg s) (hu : unheld s requestID = true)
    (hk : s.calls[k]? = some (cleanupRequest requestID))
    (hstep : step (machine cfg) s (.run k fails) = some s') : Untracked cfg requestID k s' := by
  obtain ⟨tracked, hr⟩ := h.queue
  obtain ⟨q, hq, hr', -⟩ := hr.untrack requestID
  have hexec : (machine cfg).exec s.shared (.untrack requestID) fails = some ({ s.shared with queue := q }, []) := by
    simp only [machine, Evicting.exec, hq, Option.map_some]
  simp only [step, hk, cleanupRequest, hexec, Option.map_some, Option.some.injEq, List.nil_append] at hstep
  subst hstep
  refine ⟨⟨_, hr', update_self ..⟩, fun i hi => ?_, fun hne => h.once hne _, .untracked ?_⟩
  · have hpending : Interleave.Pending s i ∨ i ∈ [] := pending_run hk hi
    exact unheld_iff.mp hu i (hpending.resolve_right List.not_mem_nil)
  · exact call_run_self hk

theorem Cleaning.mono (h : Cleaning s requestID k)
    (hcalls : ∀ c, s.calls[k]? = some c → s'.calls[k]? = some c)
    (hc : s.shared.channels requestID = none → s'.shared.channels requestID = none)
    (ho : s.shared.closeOnce requestID = none → s'.shared.closeOnce requestID = none) : Cleaning s' requestID k := by
  cases h with
  | untracked h => exact .untracked (hcalls _ h)
  | deregistered h h' => exact .deregistered (hcalls _ h) (hc h')
  | done h h' h'' => exact .done (hcalls _ h) (hc h') (ho h'')

theorem Cleaning.advance {x : Evicting} {i : Instr} {todo more : List Instr} {fails : Bool}
    (h : Cleaning s requestID k) (hone : cfg.evictor ≠ .immediateResponse → s.shared.closeOnce requestID = none)
    (hk : s.calls[k]? = some (i :: todo)) (hx : s.shared.exec cfg i fails = some (x, more)) :
    Cleaning { shared := x, calls := s.calls.set k (more ++ todo) } requestID k := by
  cases h with
  | untracked h =>
    rw [h] at hk
    cases hk
    cases hx
    exact .deregistered (call_run_self h) (update_self ..)
  | deregistered h hc =>
    rw [h] at hk
    cases hk
    simp only [Evicting.exec] at hx
    split at hx
    · cases hx
      exact .done (call_run_self h) hc (update_self ..)
    · rename_i hne
      cases hx
      exact .done (call_run_self h) hc (hone hne)
  | done h hc ho =>
    rw [h] at hk
    cases hk

/-- **As long as no `PreRequest` of the request starts, it stays untracked and
the cleanup makes headway.** -/
theorem Untracked.step {l : Label Start Bool} (h : Untracked cfg requestID k s) (hl : notDispatched requestID s l)
    (hstep : step (machine cfg) s l = some s') : Untracked cfg requestID k s' := by
  obtain ⟨tracked, hr, hid⟩ := h.queue
  rcases step_cases hstep with ⟨b, x, todo, rfl, hb, rfl⟩ | ⟨k', c, i, todo, x, more, rfl, hk, hx, rfl⟩
  · obtain ⟨hq, hc, ho, htodo⟩ := start_frame hb
    have hnew : ∀ j ∈ todo, j.holds requestID = false := by
      refine htodo requestID fun r hr => ?_
      rw [hr] at hl
      exact hl
    refine ⟨⟨tracked, by rw [hq]; exact hr, hid⟩, fun i hi => ?_, fun hne => by rw [ho]; exact h.once hne, ?_⟩
    · rcases Interleave.pending_start hi with hi | hi
      · exact h.unheld i hi
      · exact hnew i hi
    · exact h.cleaning.mono (fun c => Interleave.call_start) (fun he => by rw [hc, he]) fun he => by rw [ho, he]
  · have hheld := h.unheld i (.of_getElem? hk)
    obtain ⟨tracked', hr', hkeep⟩ := exec_queue hr hx
    obtain ⟨hid', hmore⟩ := hkeep requestID hid hheld
    obtain ⟨hmaps, honce⟩ := exec_maps hx
    refine ⟨⟨tracked', hr', hid'⟩, fun j hj => ?_, fun hne => by rw [honce hne]; exact h.once hne, ?_⟩
    · rcases pending_run hk hj with hj | hj
      · exact h.unheld j hj
      · exact hmore j hj
    · by_cases hkk : k' = k
      · subst hkk
        exact h.cleaning.advance h.once hk hx
      · exact h.cleaning.mono (fun c hc => Interleave.call_run hc hkk) (hmaps requestID hheld).1
          (hmaps requestID hheld).2

/-- **Tracked state is released.** A cleanup takes its first step while no
`EvictN` has the request popped and no `PreRequest` is tracking it. Then, in
every run on in which no `PreRequest` of the request starts, nothing of the
request is left when the cleanup has returned. -/
theorem released_of_cleanup {fails : Bool} (h₁ : Reaches (step (machine cfg)) Any init s₁)
    (hk : s₁.calls[k]? = some (cleanupRequest requestID)) (hu : unheld s₁ requestID = true)
    (hstep : step (machine cfg) s₁ (.run k fails) = some s₂)
    (h₂ : Reaches (step (machine cfg)) (notDispatched requestID) s₂ s) (hdone : s.calls[k]? = some []) :
    Released s.shared requestID := by
  have hs : Untracked cfg requestID k s :=
    h₂.invariant (Untracked cfg requestID k) (untracked_of_cleanup (inv_of_reaches h₁) hu hk hstep)
      fun _ _ _ hs hl hstep => hs.step hl hstep
  obtain ⟨tracked, hr, hid⟩ := hs.queue
  have hmaps : s.shared.channels requestID = none ∧ s.shared.closeOnce requestID = none := by
    cases hs.cleaning with
    | untracked h | deregistered h _ =>
      rw [h] at hdone
      cases hdone
    | done _ hc ho => exact ⟨hc, ho⟩
  refine ⟨fun item hitem he => ?_, by rw [hr.inFlight, hid], hmaps.1, hmaps.2⟩
  have htracked := ((hr.contents item).mp hitem).1
  rw [he, hid] at htracked
  cases htracked

end Runs

/-! ## Sample runs -/

theorem exists_cleanup (cfg : Config) (before after : List (Label Start Bool)) (requestID : String) (k : Nat)
    (p₁ p : State Evicting Instr → Bool)
    (h : ((run (step (machine cfg)) init before).any fun s₁ =>
      decide (s₁.calls[k]? = some (cleanupRequest requestID)) && p₁ s₁ &&
        ((step (machine cfg) s₁ (.run k false)).any fun s₂ =>
          (runIf (step (machine cfg)) (notDispatched requestID) s₂ after).any fun s =>
            decide (s.calls[k]? = some []) && p s)) = true) :
    ∃ s₁ s₂ s, Reaches (step (machine cfg)) Any init s₁ ∧
      s₁.calls[k]? = some (cleanupRequest requestID) ∧ p₁ s₁ = true ∧
      step (machine cfg) s₁ (.run k false) = some s₂ ∧
      Reaches (step (machine cfg)) (notDispatched requestID) s₂ s ∧ s.calls[k]? = some [] ∧ p s = true := by
  obtain ⟨s₁, h₁, h⟩ := (Option.any_eq_true ..).mp h
  simp only [Bool.and_eq_true, decide_eq_true_eq] at h
  obtain ⟨⟨hk, hp₁⟩, h⟩ := h
  obtain ⟨s₂, hs₂, h⟩ := (Option.any_eq_true ..).mp h
  obtain ⟨s, hs, h⟩ := (Option.any_eq_true ..).mp h
  simp only [Bool.and_eq_true, decide_eq_true_eq] at h
  exact ⟨s₁, s₂, s, reaches_of_run h₁, hk, hp₁, hs₂, reaches_of_runIf hs, h.1, h.2⟩

/-- A sheddable request. -/
def sampleRequest : PreRequest :=
  { requestID := "a", priority := -1, target := some ("10.0.0.1", "8000"), now := 0 }

def sampleConfig (evictor : Evictor) : Config := { policies := priorityThenTime, evictor, maxCap := 1024 }

/-- The request is tracked and registered, an `EvictN` pops it, the response ends. -/
def sampleBefore : List (Label Start Bool) :=
  [.start (.preRequest sampleRequest), .run 0 false, .run 0 false, .run 0 false, .start (.evictN 1), .run 1 false,
    .start (.responseBody "a" true)]

/-- **A cleanup between the pop and the eviction leaves state behind**: with
the evictor of the repository an entry of its map, with one that fails the
request in the queue and in flight. -/
theorem late_evict_leaves_state :
    (∃ s₁ s₂ s, Reaches (step (machine (sampleConfig .immediateResponse))) Any init s₁ ∧
      s₁.calls[2]? = some (cleanupRequest "a") ∧
      step (machine (sampleConfig .immediateResponse)) s₁ (.run 2 false) = some s₂ ∧
      Reaches (step (machine (sampleConfig .immediateResponse))) (notDispatched "a") s₂ s ∧
      s.calls[2]? = some [] ∧ s.shared.closeOnce "a" ≠ none) ∧
    (∃ s₁ s₂ s, Reaches (step (machine (sampleConfig .external))) Any init s₁ ∧
      s₁.calls[2]? = some (cleanupRequest "a") ∧
      step (machine (sampleConfig .external)) s₁ (.run 2 false) = some s₂ ∧
      Reaches (step (machine (sampleConfig .external))) (notDispatched "a") s₂ s ∧
      s.calls[2]? = some [] ∧ s.shared.queue.allInFlight "a" ≠ none ∧ s.shared.queue.items ≠ []) := by
  constructor
  · obtain ⟨s₁, s₂, s, h₁, hk, -, hs₂, h₂, hdone, hp⟩ := exists_cleanup (sampleConfig .immediateResponse) sampleBefore
      [.run 2 false, .run 2 false, .run 1 false, .run 1 false] "a" 2 (fun _ => true)
      (fun s => decide (s.shared.closeOnce "a" ≠ none)) (by decide +kernel)
    exact ⟨s₁, s₂, s, h₁, hk, hs₂, h₂, hdone, of_decide_eq_true hp⟩
  · obtain ⟨s₁, s₂, s, h₁, hk, -, hs₂, h₂, hdone, hp⟩ := exists_cleanup (sampleConfig .external) sampleBefore
      [.run 2 false, .run 2 false, .run 1 true, .run 1 false] "a" 2 (fun _ => true)
      (fun s => decide (s.shared.queue.allInFlight "a" ≠ none ∧ s.shared.queue.items ≠ [])) (by decide +kernel)
    exact ⟨s₁, s₂, s, h₁, hk, hs₂, h₂, hdone, of_decide_eq_true hp⟩

/-- The eviction is over when the cleanup starts. -/
theorem released_of_cleanup_after_evict :
    ∃ s₁ s₂ s, Reaches (step (machine (sampleConfig .immediateResponse))) Any init s₁ ∧
      s₁.shared.closeOnce "a" ≠ none ∧
      step (machine (sampleConfig .immediateResponse)) s₁ (.run 2 false) = some s₂ ∧
      Reaches (step (machine (sampleConfig .immediateResponse))) (notDispatched "a") s₂ s ∧
      Released s.shared "a" := by
  obtain ⟨s₁, s₂, s, h₁, hk, hp₁, hs₂, h₂, hdone, -⟩ := exists_cleanup (sampleConfig .immediateResponse)
    (sampleBefore ++ [.run 1 false, .run 1 false]) [.run 2 false, .run 1 false, .run 2 false] "a" 2
    (fun s => unheld s "a" && decide (s.shared.closeOnce "a" ≠ none)) (fun _ => true) (by decide +kernel)
  rw [Bool.and_eq_true, decide_eq_true_eq] at hp₁
  exact ⟨s₁, s₂, s, h₁, hp₁.2, hs₂, h₂, released_of_cleanup h₁ hk hp₁.1 hs₂ h₂ hdone⟩

end InferenceScheduler.Eviction
