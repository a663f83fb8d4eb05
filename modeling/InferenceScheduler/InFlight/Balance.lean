/-
The counters of the in-flight load producer against the requests they count,
over every interleaving of the tracker operations of dispatches, response chunks
and endpoint deletions.

A dispatched request is in flight at the target of each of its profiles until
the release that profile owes (`Flight.outstanding`); `Exact` says that a counter
no operation is under way for is the sum over the requests in flight there. An
endpoint that is deleted meanwhile loses its counter, and the releases that
follow start a new one below zero; two profiles of a request with one target
count it twice.
-/
import InferenceScheduler.InFlight.Producer
import InferenceScheduler.Lib.Count
import InferenceScheduler.Lib.Run
import Mathlib.Algebra.Order.BigOperators.Group.List
import Mathlib.Tactic.Ring

namespace InferenceScheduler.InFlight

/-! ## The system -/

/-- What a tracker reads for an endpoint. -/
def Producer.value (p : Producer) (t : TrackerId) (e : String) : Int := (p.tracker t).get e

abbrev ProfileResults := List (String × Option TargetEndpoints)

/-- How far a request's response has come. -/
inductive Phase
  | waiting
  | streaming
  | done
  deriving DecidableEq, Repr

/-- A request that was dispatched, with the tracker operations that its
`PreRequest` or `ResponseBody` has still to make, and where it is in the first. -/
structure Flight where
  request : Request
  result : SchedulingResult
  phase : Phase
  ops : List TrackerOp
  pc : AddPc
  deriving DecidableEq, Repr

/-- A flight at the start of its `PreRequest`. -/
def Flight.new (request : Request) (result : SchedulingResult) : Flight :=
  ⟨request, result, .waiting, preRequest request result, .lookup⟩

/-- A flight at the start of a `ResponseBody`. -/
def Flight.respond (f : Flight) (endOfStream : Bool) (ops : List TrackerOp) : Flight :=
  { f with phase := if endOfStream then .done else .streaming, ops, pc := .lookup }

/-- `deleting` are the delete events under way. -/
structure Load where
  producer : Producer := {}
  flights : List Flight := []
  deleting : List (List (TrackerId × String)) := []

/-- The profile results are a map; each call visits them in an order of its own.
`track` and `delete` are one step of a call. -/
inductive LoadEvent
  | dispatch (request : Request) (result : SchedulingResult)
  | chunk (i : Nat) (endOfStream : Bool) (order : ProfileResults)
  | track (i : Nat)
  | deleteEndpoint (endpointID : String)
  | delete (event : Nat)
  deriving DecidableEq, Repr

namespace Load

/-- A chunk of a flight: its first one is marked as the start of the stream. -/
def chunk (s : Load) (i : Nat) (f : Flight) (endOfStream : Bool) (order : ProfileResults) : Option Load :=
  if f.phase ≠ .done ∧ f.ops = [] ∧ order.Perm f.result.profileResults then
    (responseBody f.request { f.result with profileResults := order } (f.phase = .waiting) endOfStream).map fun ops =>
      { s with flights := s.flights.set i (f.respond endOfStream ops) }
  else none

/-- One step of a tracker operation. -/
def track (s : Load) (i : Nat) (f : Flight) : Option Load :=
  match f.ops with
  | op :: ops =>
    let (ct, next) := addStep (s.producer.tracker op.tracker) op.endpointID op.delta f.pc
    some { s with
      producer := s.producer.setTracker op.tracker ct
      flights := s.flights.set i (match next with
        | some pc => { f with pc }
        | none => { f with ops, pc := .lookup }) }
  | [] => none

def step (s : Load) : LoadEvent → Option Load
  | .dispatch request result =>
    if (result.profileResults.map (·.1)).Nodup then
      some { s with flights := s.flights ++ [.new request result] }
    else none
  | .chunk i endOfStream order => (s.flights[i]?).bind fun f => s.chunk i f endOfStream order
  | .track i => (s.flights[i]?).bind fun f => s.track i f
  | .deleteEndpoint endpointID => some { s with deleting := s.deleting ++ [deleteOps endpointID] }
  | .delete event =>
    match s.deleting[event]? with
    | some ((id, endpointID) :: ops) => some { s with
        producer := s.producer.setTracker id ((s.producer.tracker id).delete endpointID)
        deleting := s.deleting.set event ops }
    | _ => none

end Load

/-! ## What is counted -/

/-- The endpoints of some profiles, one for each that has a target. -/
def targets (profiles : ProfileResults) : List String := profiles.filterMap fun x => primaryTarget x.2

/-- The endpoints at which a release is still owed. -/
def Flight.outstanding (f : Flight) : List String :=
  match f.phase with
  | .waiting => targets f.result.profileResults
  | .streaming => targets (f.result.profileResults.filter (·.1 ≠ profilePrefill))
  | .done => []

/-- What a request counts for: one, or its tokens. -/
def Request.weight (r : Request) : TrackerId → Int
  | .requests => 1
  | .tokens => r.estimate

namespace Flight

/-- The call of a chunk is still to come, or is not over. -/
def running (f : Flight) : Bool := f.phase ≠ .done || f.ops ≠ []

/-- What a running request counts for at an endpoint. -/
def charge (f : Flight) (t : TrackerId) (e : String) : Int :=
  if f.running ∧ e ∈ targets f.result.profileResults then f.request.weight t else 0

end Flight

namespace Load

/-- The requests dispatched to an endpoint and not released. -/
def inFlight (s : Load) (e : String) : List Flight := s.flights.filter fun f => e ∈ f.outstanding

/-- No operation on the counter is under way. -/
def Settled (s : Load) (t : TrackerId) (e : String) : Prop :=
  ∀ f ∈ s.flights, ∀ op ∈ f.ops, ¬(op.tracker = t ∧ op.endpointID = e)

instance (s : Load) (t : TrackerId) (e : String) : Decidable (s.Settled t e) :=
  inferInstanceAs (Decidable (∀ f ∈ s.flights, ∀ op ∈ f.ops, ¬(op.tracker = t ∧ op.endpointID = e)))

/-- The settled counters are the number and the tokens of the requests in flight;
none is ever negative; and all are zero or absent when all is released. -/
structure Exact (s : Load) : Prop where
  requests : ∀ e, s.Settled .requests e → s.producer.requestTracker.get e = (s.inFlight e).length
  tokens : ∀ e, s.Settled .tokens e → s.producer.tokenTracker.get e = ((s.inFlight e).map (·.request.estimate)).sum
  nonneg : ∀ e, 0 ≤ s.producer.requestTracker.get e ∧ 0 ≤ s.producer.tokenTracker.get e
  zero : (∀ f ∈ s.flights, f.phase = .done ∧ f.ops = []) →
    ∀ e, s.producer.requestTracker.get e = 0 ∧ s.producer.tokenTracker.get e = 0

/-- The profiles of a request have different targets, and what the running ones
count for fits; a counter is deleted when no request is in flight at the endpoint and
no operation on it under way. -/
def Orderly (s : Load) : LoadEvent → Prop
  | .dispatch request result =>
    (targets result.profileResults).Nodup ∧ ∀ e ∈ targets result.profileResults, ∀ t ∈ [TrackerId.requests, .tokens],
      (s.flights.map fun f => f.charge t e).sum + request.weight t < 2 ^ 63
  | .delete event => ∀ x ∈ (s.deleting[event]?).bind List.head?, s.inFlight x.2 = [] ∧ s.Settled x.1 x.2
  | _ => True

instance (s : Load) (a : LoadEvent) : Decidable (Orderly s a) := by
  cases a <;> unfold Orderly <;> infer_instance

end Load

/-! ## One step of an addition -/

theorem int64_eq_self {x : Int} (h : 0 ≤ x) (h' : x < 2 ^ 63) : int64 x = x := by
  unfold int64
  rw [Int.bmod_def]
  omega

namespace ConcurrencyTracker

/-- Every endpoint has a counter of its own. -/
structure WF (ct : ConcurrencyTracker) : Prop where
  lt : ∀ e c, ct.counts e = some c → c < ct.counters.next
  inj : ∀ e e' c, ct.counts e = some c → ct.counts e' = some c → e = e'

variable {ct : ConcurrencyTracker} {e e' : String} {delta : Int}

theorem WF.create (h : WF ct) : WF (ct.create e delta) := by
  have hnew : ∀ {e' c}, Function.update ct.counts e (some ct.counters.next) e' = some c →
      (e' = e ∧ c = ct.counters.next) ∨ (e' ≠ e ∧ ct.counts e' = some c) := by
    intro e' c he
    by_cases hee : e' = e
    · subst hee
      simp only [Function.update_self, Option.some.injEq] at he
      exact .inl ⟨rfl, he.symm⟩
    · rw [Function.update_of_ne hee] at he
      exact .inr ⟨hee, he⟩
  refine ⟨fun e' c he => ?_, fun e₁ e₂ c h₁ h₂ => ?_⟩
  · rcases hnew he with ⟨-, rfl⟩ | ⟨-, he⟩
    · exact Nat.lt_succ_self _
    · exact Nat.lt_succ_of_lt (h.lt e' c he)
  · rcases hnew h₁ with ⟨he₁, hc₁⟩ | ⟨-, hold₁⟩ <;> rcases hnew h₂ with ⟨he₂, hc₂⟩ | ⟨-, hold₂⟩
    · rw [he₁, he₂]
    · exact absurd (h.lt _ _ hold₂) (by omega)
    · exact absurd (h.lt _ _ hold₁) (by omega)
    · exact h.inj _ _ _ hold₁ hold₂

theorem WF.delete (h : WF ct) : WF (ct.delete e) := by
  have hold : ∀ {e' c}, (ct.delete e).counts e' = some c → ct.counts e' = some c := by
    intro e' c he
    by_cases hee : e' = e
    · simp [ConcurrencyTracker.delete, hee] at he
    · exact (Function.update_of_ne hee _ _).symm.trans he
  exact ⟨fun e' c he => h.lt e' c (hold he), fun e₁ e₂ c h₁ h₂ => h.inj e₁ e₂ c (hold h₁) (hold h₂)⟩

theorem get_bump (h : WF ct) {c : Nat} (hc : ct.counts e = some c) (hnn : 0 ≤ ct.get e + delta)
    (hlt : ct.get e + delta < 2 ^ 63) (e' : String) :
    (ct.bump c delta).get e' = ct.get e' + if e = e' then delta else 0 := by
  by_cases hee : e = e'
  · subst hee
    have hget : ct.get e = ct.counters.obj c := by simp [get, hc]
    rw [hget] at hnn hlt
    simp [get, bump, hc, int64_eq_self hnn hlt]
  · cases hc' : ct.counts e' with
    | none => simp [get, bump, hc', hee]
    | some c' =>
      have hne : c' ≠ c := by
        rintro rfl
        exact hee (h.inj e e' c' hc hc')
      simp [get, bump, hc', hee, Heap.set_obj_of_ne _ hne]

theorem get_create (h : WF ct) (hc : ct.counts e = none) (e' : String) :
    (ct.create e delta).get e' = ct.get e' + if e = e' then delta else 0 := by
  by_cases hee : e = e'
  · subst hee
    simp [get, create, hc]
  · have hne : e' ≠ e := Ne.symm hee
    cases hc' : ct.counts e' with
    | none => simp [get, create, hc', hee, hne]
    | some c' => simp [get, create, hc', hee, hne, Heap.alloc_obj_of_lt _ (h.lt e' c' hc')]

/-- The counter a goroutine has looked up is still the endpoint's. -/
def Current (ct : ConcurrencyTracker) (e : String) (pc : AddPc) : Prop := ∀ c, pc = .bump c → ct.counts e = some c

/-- A step of an addition finds the counter, or changes the endpoint's counter by
`delta` and removes none. -/
theorem addStep_cases (h : WF ct) {pc : AddPc} (hpc : ct.Current e pc) (hnn : 0 ≤ ct.get e + delta)
    (hlt : ct.get e + delta < 2 ^ 63) :
    (∃ pc', addStep ct e delta pc = (ct, some pc') ∧ ct.Current e pc') ∨
      ∃ ct', addStep ct e delta pc = (ct', none) ∧ WF ct' ∧
        (∀ e', ct'.get e' = ct.get e' + if e = e' then delta else 0) ∧
        ∀ e' c, ct.counts e' = some c → ct'.counts e' = some c := by
  have hbump : ∀ c, ct.counts e = some c → WF (ct.bump c delta) ∧
      (∀ e', (ct.bump c delta).get e' = ct.get e' + if e = e' then delta else 0) ∧
      ∀ e' c', ct.counts e' = some c' → (ct.bump c delta).counts e' = some c' :=
    fun c hc => ⟨⟨h.lt, h.inj⟩, get_bump h hc hnn hlt, fun _ _ => id⟩
  cases pc with
  | lookup =>
    cases hc : ct.counts e with
    | some c => exact .inl ⟨.bump c, by simp [addStep, hc], fun c' hc' => by cases hc'; exact hc⟩
    | none => exact .inl ⟨.insert, by simp [addStep, hc], nofun⟩
  | bump c => exact .inr ⟨_, rfl, hbump c (hpc c rfl)⟩
  | insert =>
    cases hc : ct.counts e with
    | some c => exact .inr ⟨_, by simp [addStep, hc], hbump c hc⟩
    | none =>
      refine .inr ⟨_, by simp [addStep, hc], h.create, get_create h hc, fun e' c hc' => ?_⟩
      have hne : e' ≠ e := by
        rintro rfl
        simp [hc] at hc'
      simpa [create, hne] using hc'

theorem get_delete (e' : String) : (ct.delete e).get e' = if e = e' then 0 else ct.get e' := by
  by_cases hee : e = e'
  · simp [get, delete, hee]
  · simp [get, delete, hee, Ne.symm hee]

end ConcurrencyTracker

/-! ## Operations -/

/-- What an operation adds to a counter. -/
def TrackerOp.at (op : TrackerOp) (t : TrackerId) (e : String) : Int :=
  if op.tracker = t ∧ op.endpointID = e then op.delta else 0

/-- What some operations add to a counter. -/
def total (ops : List TrackerOp) (t : TrackerId) (e : String) : Int := (ops.map fun op => op.at t e).sum

variable {t : TrackerId}

@[simp] theorem total_nil {e : String} : total [] t e = 0 := rfl

variable {ops : List TrackerOp}

@[simp] theorem total_cons {op : TrackerOp} {e : String} : total (op :: ops) t e = op.at t e + total ops t e := rfl

theorem total_append {ops' : List TrackerOp} {e : String} :
    total (ops ++ ops') t e = total ops t e + total ops' t e := by
  simp [total]

theorem total_of_forall {P : Int → Prop} (hzero : P 0) (hadd : ∀ x y, P x → P y → P (x + y))
    (h : ∀ op ∈ ops, P op.delta) (t : TrackerId) (e : String) : P (total ops t e) := by
  induction ops with
  | nil => exact hzero
  | cons op ops ih =>
    obtain ⟨hop, hops⟩ := List.forall_mem_cons.mp h
    rw [total_cons, TrackerOp.at]
    refine hadd _ _ ?_ (ih hops)
    split
    · exact hop
    · exact hzero

theorem total_eq_zero {e : String} (h : ∀ op ∈ ops, ¬(op.tracker = t ∧ op.endpointID = e)) : total ops t e = 0 := by
  refine List.sum_eq_zero fun x hx => ?_
  obtain ⟨op, hop, rfl⟩ := List.mem_map.mp hx
  exact if_neg (h op hop)

theorem total_nonneg (h : ∀ op ∈ ops, 0 ≤ op.delta) (t : TrackerId) (e : String) : 0 ≤ total ops t e :=
  total_of_forall (P := fun x => 0 ≤ x) le_rfl (fun _ _ => Int.add_nonneg) h t e

theorem total_nonpos (h : ∀ op ∈ ops, op.delta ≤ 0) (t : TrackerId) (e : String) : total ops t e ≤ 0 :=
  total_of_forall (P := fun x => x ≤ 0) le_rfl (fun _ _ _ _ => by omega) h t e

namespace Producer

def WF (p : Producer) : Prop := ∀ t, (p.tracker t).WF

variable {p : Producer}

@[simp] theorem tracker_setTracker (t t' : TrackerId) (ct : ConcurrencyTracker) :
    (p.setTracker t ct).tracker t' = if t = t' then ct else p.tracker t' := by
  cases t <;> cases t' <;> rfl

theorem WF.setTracker (h : WF p) {ct : ConcurrencyTracker} (hct : ct.WF) (t : TrackerId) : WF (p.setTracker t ct) := by
  intro t'
  rw [tracker_setTracker]
  split
  · exact hct
  · exact h t'

theorem setTracker_self (t : TrackerId) : p.setTracker t (p.tracker t) = p := by
  cases t <;> rfl

theorem value_setTracker {op : TrackerOp} {ct : ConcurrencyTracker}
    (h : ∀ e, ct.get e = (p.tracker op.tracker).get e + if op.endpointID = e then op.delta else 0) (t : TrackerId)
    (e : String) : (p.setTracker op.tracker ct).value t e = p.value t e + op.at t e := by
  rw [value, tracker_setTracker, TrackerOp.at]
  by_cases ht : op.tracker = t
  · subst ht
    simp [h, value]
  · simp [ht, value]

end Producer

/-! ## Charges and releases -/

theorem Request.estimate_nonneg (r : Request) : 0 ≤ r.estimate := by
  unfold Request.estimate
  simp only
  split
  · omega
  · split <;> omega

theorem Request.weight_nonneg (r : Request) (t : TrackerId) : 0 ≤ r.weight t := by
  cases t with
  | requests => exact Int.one_nonneg
  | tokens => exact r.estimate_nonneg

theorem total_chargeOps (r : Request) (sign : Int) (target : Option String) (t : TrackerId) (e : String) :
    total (chargeOps r sign target) t e = sign * (r.weight t * target.toList.count e) := by
  cases target with
  | none => simp [chargeOps]
  | some id => cases t <;> by_cases he : id = e <;> simp [chargeOps, TrackerOp.at, Request.weight, he]

theorem targets_cons (x : String × Option TargetEndpoints) (profiles : ProfileResults) :
    targets (x :: profiles) = (primaryTarget x.2).toList ++ targets profiles := by
  unfold targets
  rw [List.filterMap_cons]
  cases primaryTarget x.2 <;> rfl

theorem total_flatMap_chargeOps (r : Request) (sign : Int) (profiles : ProfileResults) (t : TrackerId) (e : String) :
    total (profiles.flatMap fun x => chargeOps r sign (primaryTarget x.2)) t e =
      sign * (r.weight t * (targets profiles).count e) := by
  induction profiles with
  | nil => simp [targets]
  | cons x profiles ih =>
    rw [List.flatMap_cons, total_append, ih, total_chargeOps, targets_cons, List.count_append]
    push_cast
    ring

variable {r : Request}

theorem delta_chargeOps {sign : Int} {P : Int → Prop} (h : P sign) (h' : P (sign * r.estimate))
    {target : Option String} : ∀ op ∈ chargeOps r sign target, P op.delta := by
  cases target <;> simp [chargeOps, h, h']

theorem targets_prefill {profiles : ProfileResults} (h : (profiles.map (·.1)).Nodup) :
    targets (profiles.filter (·.1 = profilePrefill)) =
      ((profiles.lookup profilePrefill).elim [] fun r => (primaryTarget r).toList) := by
  induction profiles with
  | nil => rfl
  | cons x profiles ih =>
    obtain ⟨name, r⟩ := x
    obtain ⟨hnot, hnd⟩ := List.nodup_cons.mp h
    by_cases hname : name = profilePrefill
    · subst hname
      have hnil : profiles.filter (fun x => decide (x.1 = profilePrefill)) = [] := by
        rw [List.filter_eq_nil_iff]
        intro y hy he
        exact hnot (List.mem_map.mpr ⟨y, hy, by simpa using he⟩)
      rw [List.filter_cons_of_pos (by simp), hnil, List.lookup_cons_self, targets_cons]
      simp [targets]
    · rw [List.filter_cons_of_neg (by simpa using hname), ih hnd, List.lookup_cons]
      simp [beq_eq_false_iff_ne.mpr (Ne.symm hname)]

theorem count_targets_split (profiles : ProfileResults) (e : String) :
    (targets profiles).count e = (targets (profiles.filter (·.1 = profilePrefill))).count e +
      (targets (profiles.filter (·.1 ≠ profilePrefill))).count e := by
  induction profiles with
  | nil => rfl
  | cons x profiles ih =>
    by_cases hx : x.1 = profilePrefill <;> simp [hx, targets_cons, ih] <;> omega

theorem targets_perm {profiles profiles' : ProfileResults} (h : profiles.Perm profiles') :
    (targets profiles).Perm (targets profiles') := h.filterMap _

/-- What is released at the end of a stream. -/
def endOps (r : Request) (order : ProfileResults) (endOfStream : Bool) : List TrackerOp :=
  if endOfStream then (order.filter (·.1 ≠ profilePrefill)).flatMap fun x => chargeOps r (-1) (primaryTarget x.2) else []

theorem nonpos_chargeOps {target : Option String} : ∀ op ∈ chargeOps r (-1) target, op.delta ≤ 0 :=
  delta_chargeOps (P := fun x => x ≤ 0) (by decide) (by have := r.estimate_nonneg; omega)

variable {endOfStream : Bool} {order : ProfileResults}

theorem nonpos_endOps : ∀ op ∈ endOps r order endOfStream, op.delta ≤ 0 := by
  unfold endOps
  split
  · simp only [List.mem_flatMap]
    rintro op ⟨x, -, hop⟩
    exact nonpos_chargeOps op hop
  · simp

theorem responseBody_eq {f : Flight} {startOfStream : Bool} (hnodup : (order.map (·.1)).Nodup)
    (hops : responseBody f.request { f.result with profileResults := order } startOfStream endOfStream = some ops) :
    (∀ op ∈ ops, op.delta ≤ 0) ∧ ∀ t e,
      total ops t e = (if startOfStream then
          -(f.request.weight t * (targets (order.filter (·.1 = profilePrefill))).count e) else 0) +
        total (endOps f.request order endOfStream) t e := by
  rw [targets_prefill hnodup]
  unfold responseBody at hops
  cases startOfStream with
  | false =>
    simp only [Bool.false_eq_true, if_false] at hops
    obtain rfl : endOps f.request order endOfStream = ops := Option.some.inj hops
    exact ⟨nonpos_endOps, by simp⟩
  | true =>
    simp only [if_true] at hops
    split at hops
    · cases hops
    · next targets hlookup =>
      obtain rfl : chargeOps f.request (-1) (primaryTarget (some targets)) ++ endOps f.request order endOfStream = ops :=
        Option.some.inj hops
      refine ⟨fun op hop => (List.mem_append.mp hop).elim (nonpos_chargeOps op) (nonpos_endOps op), fun t e => ?_⟩
      rw [total_append, total_chargeOps, hlookup]
      simp
    · next hlookup =>
      obtain rfl : endOps f.request order endOfStream = ops := Option.some.inj hops
      refine ⟨nonpos_endOps, fun t e => ?_⟩
      rw [hlookup]
      simp

namespace Flight

variable {f : Flight} {e : String}

/-- What a flight counts for where it owes a release. -/
def owes (f : Flight) (t : TrackerId) (e : String) : Int := if e ∈ f.outstanding then f.request.weight t else 0

/-- What it has added to a counter, without the operations that are to come. -/
def holds (f : Flight) (t : TrackerId) (e : String) : Int := f.owes t e - total f.ops t e

theorem owes_nonneg (f : Flight) (t : TrackerId) (e : String) : 0 ≤ f.owes t e := by
  unfold owes
  split
  · exact f.request.weight_nonneg t
  · exact le_rfl

theorem outstanding_sublist (f : Flight) : f.outstanding.Sublist (targets f.result.profileResults) := by
  unfold outstanding
  split
  · exact .refl _
  · exact List.filter_sublist.filterMap _
  · exact List.nil_sublist _

theorem owes_eq (h : (targets f.result.profileResults).Nodup) :
    f.owes t e = f.request.weight t * f.outstanding.count e := by
  unfold owes
  split
  · next he => rw [List.count_eq_one_of_mem (h.sublist f.outstanding_sublist) he, Nat.cast_one, mul_one]
  · next he => rw [List.count_eq_zero.mpr he, Nat.cast_zero, mul_zero]

theorem owes_le (f : Flight) (t : TrackerId) (e : String) :
    f.owes t e ≤ if e ∈ targets f.result.profileResults then f.request.weight t else 0 := by
  unfold owes
  split
  · next he => rw [if_pos (f.outstanding_sublist.subset he)]
  · split
    · exact f.request.weight_nonneg t
    · exact le_rfl

theorem owes_le_charge (f : Flight) (t : TrackerId) (e : String) : f.owes t e ≤ f.charge t e := by
  by_cases hrun : f.running
  · simpa [charge, hrun] using f.owes_le t e
  · have hdone : f.phase = .done := by simp [running] at hrun; exact hrun.1
    simp [charge, hrun, owes, outstanding, hdone]

/-- **A flight that can be**: its profiles and their targets differ, its call only
adds or only subtracts, and what it holds is at most what it counts for. -/
structure WF (f : Flight) : Prop where
  names : (f.result.profileResults.map (·.1)).Nodup
  apart : (targets f.result.profileResults).Nodup
  sign : (∀ op ∈ f.ops, 0 ≤ op.delta) ∨ ∀ op ∈ f.ops, op.delta ≤ 0
  nonneg : ∀ t e, 0 ≤ f.holds t e
  le : ∀ t e, f.holds t e ≤ f.charge t e

/-- The counter its call has looked up is the endpoint's. -/
def Current (f : Flight) (p : Producer) : Prop :=
  ∀ op ops, f.ops = op :: ops → (p.tracker op.tracker).Current op.endpointID f.pc

theorem holds_of_settled (h : f.ops = []) : f.holds t e = f.owes t e := by
  simp [holds, h]

variable {op : TrackerOp} {rest : List TrackerOp}

/-- One operation of the call later. -/
theorem holds_tail (h : f.ops = op :: rest) (pc : AddPc) :
    holds { f with ops := rest, pc } t e = f.holds t e + op.at t e := by
  show f.owes t e - total rest t e = _
  rw [holds, h, total_cons]
  omega

theorem charge_le {f' : Flight} (hrequest : f'.request = f.request) (hresult : f'.result = f.result)
    (hrun : f.running = true) (t : TrackerId) (e : String) : f'.charge t e ≤ f.charge t e := by
  unfold charge
  rw [hrequest, hresult]
  simp only [hrun, true_and]
  split
  · next he => rw [if_pos he.2]
  · split
    · exact f.request.weight_nonneg t
    · exact le_rfl

theorem WF.tail (h : f.WF) (hops : f.ops = op :: rest) (pc : AddPc) : WF { f with ops := rest, pc } := by
  have hmem : ∀ o ∈ rest, o ∈ f.ops := fun o ho => by
    rw [hops]
    exact List.mem_cons_of_mem _ ho
  have hop : op ∈ f.ops := by simp [hops]
  have hat : ∀ t e, op.at t e = op.delta ∨ op.at t e = 0 := fun t e => by
    unfold TrackerOp.at
    split <;> simp
  refine ⟨h.names, h.apart, h.sign.imp (fun hs o ho => hs o (hmem o ho)) fun hs o ho => hs o (hmem o ho), fun t e => ?_,
    fun t e => ?_⟩ <;> rcases h.sign with hs | hs
  · have := h.nonneg t e
    have := hs op hop
    have := hat t e
    rw [holds_tail hops]
    omega
  · have := total_nonpos (fun o ho => hs o (hmem o ho)) t e
    have := f.owes_nonneg t e
    show 0 ≤ f.owes t e - total rest t e
    omega
  · have := total_nonneg (fun o ho => hs o (hmem o ho)) t e
    have : f.owes t e ≤ _ := owes_le_charge { f with ops := rest, pc } t e
    show f.owes t e - total rest t e ≤ _
    omega
  · -- the call is over, or it still runs
    by_cases hrest : rest = []
    · rw [holds_of_settled (f := { f with ops := rest, pc }) hrest]
      exact owes_le_charge _ t e
    · have hcharge : charge { f with ops := rest, pc } t e = f.charge t e := by simp [charge, running, hrest, hops]
      have := h.le t e
      have := hs op hop
      have := hat t e
      rw [holds_tail hops, hcharge]
      omega

/-- **What a chunk releases**: what its flight owes before and not after. -/
theorem total_responseBody (h : f.WF) (hphase : f.phase ≠ .done) (hperm : order.Perm f.result.profileResults)
    (hops : responseBody f.request { f.result with profileResults := order } (f.phase = .waiting) endOfStream = some ops) :
    (∀ op ∈ ops, op.delta ≤ 0) ∧ ∀ t e, f.owes t e + total ops t e =
      (f.respond endOfStream ops).owes t e := by
  obtain ⟨hsign, htotal⟩ := responseBody_eq ((hperm.map _).nodup_iff.mpr h.names) hops
  refine ⟨hsign, fun t e => ?_⟩
  have hprefill := (targets_perm (hperm.filter (·.1 = profilePrefill))).count_eq e
  have hrest := (targets_perm (hperm.filter (·.1 ≠ profilePrefill))).count_eq e
  have hend : total (endOps f.request order endOfStream) t e =
      if endOfStream then -(f.request.weight t * (targets (f.result.profileResults.filter (·.1 ≠ profilePrefill))).count e)
      else 0 := by
    unfold endOps
    split
    · rw [total_flatMap_chargeOps, hrest]
      ring
    · rfl
  rw [htotal, hend, hprefill, owes_eq h.apart, owes_eq (f := f.respond endOfStream ops) h.apart, respond]
  cases hp : f.phase with
  | done => exact absurd hp hphase
  | waiting =>
    have hsplit := count_targets_split f.result.profileResults e
    cases endOfStream <;> simp [outstanding, hp, hsplit] <;> ring
  | streaming => cases endOfStream <;> simp [outstanding, hp]

/-- The flight when the call of a chunk starts. -/
theorem WF.chunk (h : f.WF) (hidle : f.ops = []) (hphase : f.phase ≠ .done) (hperm : order.Perm f.result.profileResults)
    (hops : responseBody f.request { f.result with profileResults := order } (f.phase = .waiting) endOfStream = some ops) :
    (f.respond endOfStream ops).WF ∧ ∀ t e, (f.respond endOfStream ops).holds t e = f.holds t e := by
  obtain ⟨hsign, htotal⟩ := total_responseBody h hphase hperm hops
  have hholds : ∀ t e, (f.respond endOfStream ops).holds t e = f.holds t e := fun t e => by
    rw [holds_of_settled hidle, holds, ← htotal]
    exact Int.add_sub_cancel _ _
  refine ⟨⟨h.names, h.apart, .inr hsign, fun t e => hholds t e ▸ h.nonneg t e, fun t e => ?_⟩, hholds⟩
  cases ops with
  | nil =>
    rw [holds_of_settled rfl]
    exact owes_le_charge _ t e
  | cons op ops =>
    rw [hholds, holds_of_settled hidle]
    simpa [charge, running, respond] using f.owes_le t e

end Flight

/-- The flight when `PreRequest` starts. -/
theorem WF.dispatch (request : Request) {result : SchedulingResult} (hnames : (result.profileResults.map (·.1)).Nodup)
    (hapart : (targets result.profileResults).Nodup) :
    (Flight.new request result).WF ∧ ∀ t e, (Flight.new request result).holds t e = 0 := by
  have hholds : ∀ t e, (Flight.new request result).holds t e = 0 := fun t e => by
    rw [Flight.holds, Flight.owes_eq hapart, Flight.new, preRequest, total_flatMap_chargeOps, one_mul]
    exact sub_self _
  refine ⟨⟨hnames, hapart, .inl ?_, fun t e => (hholds t e).ge, fun t e => ?_⟩, hholds⟩
  · simp only [Flight.new, preRequest, List.mem_flatMap]
    rintro op ⟨x, -, hop⟩
    exact delta_chargeOps (P := fun x => 0 ≤ x) (by decide) (by have := request.estimate_nonneg; omega) op hop
  · rw [hholds]
    exact (Flight.owes_nonneg _ t e).trans (Flight.owes_le_charge _ t e)

/-! ## Runs -/

namespace Load

/-- **The invariant**: the counters are what the flights hold, and what they count
for fits. -/
structure Inv (s : Load) : Prop where
  wf : s.producer.WF
  value : ∀ t e, s.producer.value t e = (s.flights.map fun f => f.holds t e).sum
  flights : ∀ f ∈ s.flights, f.WF
  current : ∀ f ∈ s.flights, f.Current s.producer
  fits : ∀ t e, (s.flights.map fun f => f.charge t e).sum < 2 ^ 63

variable {s s' : Load} {i : Nat} {f f' : Flight}

/-- What some flights hold fits when what they count for does. -/
theorem holds_fits {flights : List Flight} (h : ∀ f ∈ flights, f.WF) {t : TrackerId} {e : String}
    (hfits : (flights.map fun f => f.charge t e).sum < 2 ^ 63) :
    0 ≤ (flights.map fun f => f.holds t e).sum ∧ (flights.map fun f => f.holds t e).sum < 2 ^ 63 := by
  refine ⟨List.sum_nonneg fun x hx => ?_, lt_of_le_of_lt (List.sum_le_sum fun f hf => (h f hf).le t e) hfits⟩
  obtain ⟨f, hf, rfl⟩ := List.mem_map.mp hx
  exact (h f hf).nonneg t e

theorem forall_set {P : Flight → Prop} (h : ∀ f ∈ s.flights, P f) (hf' : P f') : ∀ f ∈ s.flights.set i f', P f := by
  intro g hg
  rcases List.mem_or_eq_of_mem_set hg with hg | rfl
  · exact h g hg
  · exact hf'

theorem Inv.charge_set (h : Inv s) (hi : s.flights[i]? = some f) (hcharge : ∀ t e, f'.charge t e ≤ f.charge t e)
    (t : TrackerId) (e : String) : ((s.flights.set i f').map fun f => f.charge t e).sum < 2 ^ 63 := by
  have := h.fits t e
  have := hcharge t e
  rw [sum_map_set _ hi]
  omega

theorem Inv.dispatch {request : Request} {result : SchedulingResult} (h : Inv s)
    (hnames : (result.profileResults.map (·.1)).Nodup) (hok : Orderly s (.dispatch request result)) :
    Inv { s with flights := s.flights ++ [.new request result] } := by
  obtain ⟨hwf, hholds⟩ := WF.dispatch request hnames hok.1
  refine ⟨h.wf, fun t e => ?_, ?_, ?_, fun t e => ?_⟩
  · simpa [hholds] using h.value t e
  · exact List.forall_mem_append.mpr ⟨h.flights, List.forall_mem_singleton.mpr hwf⟩
  · exact List.forall_mem_append.mpr ⟨h.current, List.forall_mem_singleton.mpr nofun⟩
  · simp only [List.map_append, List.sum_append, List.map_singleton, List.sum_singleton]
    by_cases he : e ∈ targets result.profileResults
    · simpa [Flight.charge, Flight.running, Flight.new, he] using hok.2 e he t (by cases t <;> simp)
    · simpa [Flight.charge, Flight.new, he] using h.fits t e

theorem Inv.chunk {endOfStream : Bool} {order : ProfileResults} (h : Inv s) (hi : s.flights[i]? = some f)
    (hs : s.chunk i f endOfStream order = some s') : Inv s' := by
  unfold Load.chunk at hs
  obtain ⟨⟨hphase, hidle, hperm⟩, hs⟩ := Option.ite_none_right_eq_some.mp hs
  obtain ⟨ops, hops, rfl⟩ := Option.map_eq_some_iff.mp hs
  have hf := h.flights f (List.mem_of_getElem? hi)
  obtain ⟨hwf, hholds⟩ := hf.chunk hidle hphase hperm hops
  have hrun : f.running = true := by simp [Flight.running, hphase]
  refine ⟨h.wf, fun t e => ?_, forall_set h.flights hwf, forall_set h.current (nofun),
    h.charge_set hi (Flight.charge_le rfl rfl hrun)⟩
  rw [sum_map_set _ hi, hholds, h.value]
  omega

theorem Inv.track (h : Inv s) (hi : s.flights[i]? = some f) (hs : s.track i f = some s') : Inv s' := by
  unfold Load.track at hs
  split at hs
  case h_2 => cases hs
  case h_1 op rest hops =>
  have hmem := List.mem_of_getElem? hi
  have hf := h.flights f hmem
  have hrun : f.running = true := by simp [Flight.running, hops]
  have hflights := forall_set (i := i) h.flights (hf.tail hops .lookup)
  have hcharge := h.charge_set hi (@Flight.charge_le f { f with ops := rest, pc := .lookup } rfl rfl hrun)
  have hsum : ∀ t e, ((s.flights.set i { f with ops := rest, pc := .lookup }).map fun f => f.holds t e).sum =
      s.producer.value t e + op.at t e := fun t e => by
    rw [sum_map_set _ hi, Flight.holds_tail hops, h.value]
    omega
  -- the counter before and after the operation is a sum of what is held
  have hfits := holds_fits hflights (hcharge op.tracker op.endpointID)
  rw [hsum, TrackerOp.at, if_pos ⟨rfl, rfl⟩] at hfits
  rcases ConcurrencyTracker.addStep_cases (h.wf op.tracker) (h.current f hmem op rest hops) hfits.1 hfits.2 with
    ⟨pc, hstep, hpc⟩ | ⟨ct, hstep, hwf, hget, hkeep⟩
  · simp only [hstep, Producer.setTracker_self] at hs
    cases hs
    refine ⟨h.wf, fun t e => ?_, forall_set h.flights ⟨hf.names, hf.apart, hf.sign, hf.nonneg, hf.le⟩,
      forall_set h.current fun op' ops' hops' => ?_, h.charge_set hi fun t e => le_rfl⟩
    · rw [sum_map_set _ hi, h.value]
      exact (Int.sub_add_cancel _ _).symm
    · obtain ⟨rfl, rfl⟩ := List.cons.inj (hops.symm.trans hops')
      exact hpc
  · simp only [hstep] at hs
    cases hs
    refine ⟨h.wf.setTracker hwf _, fun t e => ?_, hflights, forall_set (fun g hg op' ops' hops' c hc => ?_)
      (nofun), hcharge⟩
    · rw [hsum]
      exact Producer.value_setTracker hget t e
    · have hcur := h.current g hg op' ops' hops' c hc
      rw [Producer.tracker_setTracker]
      split
      · next ht => exact hkeep _ _ (ht ▸ hcur)
      · exact hcur

theorem sum_owes (s : Load) (t : TrackerId) (e : String) :
    (s.flights.map fun f => f.owes t e).sum = ((s.inFlight e).map fun f => f.request.weight t).sum := by
  unfold inFlight
  induction s.flights with
  | nil => rfl
  | cons f flights ih =>
    rw [List.map_cons, List.sum_cons, ih, Flight.owes]
    by_cases he : e ∈ f.outstanding <;> simp [he]

/-- **A settled counter** is the sum over the requests in flight. -/
theorem Inv.value_of_settled (h : Inv s) {t : TrackerId} {e : String} (hsettled : s.Settled t e) :
    s.producer.value t e = ((s.inFlight e).map fun f => f.request.weight t).sum := by
  rw [h.value, ← sum_owes]
  refine congrArg List.sum (List.map_congr_left fun f hf => ?_)
  rw [Flight.holds, total_eq_zero (hsettled f hf), sub_zero]

theorem Inv.delete {event : Nat} {id : TrackerId} {endpointID : String} {ops : List (TrackerId × String)} (h : Inv s)
    (hnone : s.inFlight endpointID = []) (hsettled : s.Settled id endpointID) :
    Inv { s with
      producer := s.producer.setTracker id ((s.producer.tracker id).delete endpointID)
      deleting := s.deleting.set event ops } := by
  have hzero := h.value_of_settled hsettled
  rw [hnone] at hzero
  refine ⟨h.wf.setTracker (h.wf id).delete id, fun t e => ?_, h.flights, fun f hf op rest hops c hc => ?_, h.fits⟩
  · rw [Producer.value, Producer.tracker_setTracker, ← h.value]
    split
    · next ht =>
      subst ht
      rw [ConcurrencyTracker.get_delete]
      split
      · next he =>
        subst he
        exact hzero.symm
      · rfl
    · rfl
  · have hcur := h.current f hf op rest hops c hc
    have hother := hsettled f hf op (by simp [hops])
    rw [Producer.tracker_setTracker]
    split
    · next ht =>
      have hne : op.endpointID ≠ endpointID := fun he => hother ⟨ht.symm, he⟩
      subst ht
      exact (Function.update_of_ne hne _ _).trans hcur
    · exact hcur

theorem Inv.step {a : LoadEvent} (h : Inv s) (hok : Orderly s a) (hs : s.step a = some s') : Inv s' := by
  cases a with
  | dispatch request result =>
    obtain ⟨hnames, hs⟩ := Option.ite_none_right_eq_some.mp hs
    cases hs
    exact h.dispatch hnames hok
  | chunk i endOfStream order =>
    obtain ⟨f, hi, hs⟩ := Option.bind_eq_some_iff.mp hs
    exact h.chunk hi hs
  | track i =>
    obtain ⟨f, hi, hs⟩ := Option.bind_eq_some_iff.mp hs
    exact h.track hi hs
  | deleteEndpoint endpointID =>
    cases hs
    exact ⟨h.wf, h.value, h.flights, h.current, h.fits⟩
  | delete event =>
    simp only [Load.step] at hs
    split at hs
    · next hevent =>
      cases hs
      have hfree := hok (_, _) (by rw [hevent]; rfl)
      exact h.delete hfree.1 hfree.2
    · cases hs

theorem init_inv : Inv {} := by
  refine ⟨fun t => ?_, fun t e => ?_, by simp, by simp, by simp⟩
  · cases t <;> exact ⟨by simp [Producer.tracker], by simp [Producer.tracker]⟩
  · cases t <;> rfl

theorem Inv.exact (h : Inv s) : Exact s := by
  have hnonneg : ∀ t e, 0 ≤ s.producer.value t e := fun t e => h.value t e ▸ (holds_fits h.flights (h.fits t e)).1
  refine ⟨fun e he => ?_, fun e he => h.value_of_settled he, fun e => ⟨hnonneg .requests e, hnonneg .tokens e⟩,
    fun hdone e => ?_⟩
  · refine (h.value_of_settled he).trans ?_
    simp [Request.weight]
  · have hzero : ∀ t, s.producer.value t e = 0 := by
      intro t
      have hsettled : s.Settled t e := fun f hf op hop => by simp [(hdone f hf).2] at hop
      have hnone : s.inFlight e = [] := by
        refine List.filter_eq_nil_iff.mpr fun f hf => ?_
        simp [Flight.outstanding, (hdone f hf).1]
      rw [h.value_of_settled hsettled, hnone]
      rfl
    exact ⟨hzero .requests, hzero .tokens⟩

/-- **The counters are exact** in every run that deletes a counter only when
no request is in flight at its endpoint, and whose requests have a target for each
profile of its own, as long as the sums fit. -/
theorem counters_exact (s : Load) (h : Reaches step Orderly {} s) : Exact s :=
  (h.invariant Inv init_inv fun _ _ _ => Inv.step).exact

/-! ## Three runs -/

def podTarget (name : String) : Option TargetEndpoints := some [some ⟨some ⟨⟨"default", name⟩⟩, 0⟩]

/-- Prefill and decode on the given pods. -/
def disaggregated (prefill decode : String) : SchedulingResult :=
  ⟨[("prefill", podTarget prefill), ("decode", podTarget decode)], "decode"⟩

def smallRequest : Request := ⟨40, -1, 0⟩

/-- All steps of a call with four tracker operations, or with two. -/
def tracks (i : Nat) (operations : Nat) : List LoadEvent := List.replicate (2 * operations) (.track i)

/-- Two requests whose dispatches overlap; the first one's prefill is released, then
its decode, while a third pod is deleted. -/
def overlapping : List LoadEvent :=
  [.dispatch smallRequest (disaggregated "a" "b"), .track 0, .dispatch smallRequest (disaggregated "a" "b"), .track 1,
    .track 0, .track 1] ++ tracks 0 3 ++ tracks 1 3 ++
  [.chunk 0 false (disaggregated "a" "b").profileResults] ++ tracks 0 2 ++
  [.deleteEndpoint "default/c", .delete 0, .chunk 0 true (disaggregated "a" "b").profileResults, .delete 0] ++ tracks 0 2

theorem counters_exact_overlapping : ∃ s, Exact s ∧ (∀ f ∈ s.flights, f.ops = []) ∧
    s.producer.requestTracker.get "default/a" = 1 ∧ s.producer.tokenTracker.get "default/b" = 25 := by
  obtain ⟨s, hs, hp⟩ := exists_of_runIf step Orderly {} overlapping
    (fun s => (∀ f ∈ s.flights, f.ops = []) ∧ s.producer.requestTracker.get "default/a" = 1 ∧
      s.producer.tokenTracker.get "default/b" = 25)
    (by decide +kernel)
  exact ⟨s, counters_exact s hs, hp⟩

/-- The decode pod is deleted before the stream ends. -/
def deletedInFlight : List LoadEvent :=
  [.dispatch smallRequest (disaggregated "a" "b")] ++ tracks 0 4 ++ [.deleteEndpoint "default/b", .delete 0, .delete 0,
    .chunk 0 true (disaggregated "a" "b").profileResults] ++ tracks 0 4

/-- **Counters that are not exact**: after a deletion in flight one is -1 when all
is released, and one request on a single pod counts for two. -/
theorem counters_negative :
    (∃ s, Reaches step Any {} s ∧ (∀ f ∈ s.flights, f.phase = .done ∧ f.ops = []) ∧
      s.producer.requestTracker.get "default/b" = -1 ∧ ¬ Exact s) ∧
    ∃ s, Reaches step Any {} s ∧ s.Settled .requests "default/a" ∧ s.flights.length = 1 ∧
      s.producer.requestTracker.get "default/a" = 2 ∧ ¬ Exact s := by
  constructor
  · obtain ⟨s, hs, hdone, hneg⟩ := exists_of_run step {} deletedInFlight
      (fun s => (∀ f ∈ s.flights, f.phase = .done ∧ f.ops = []) ∧ s.producer.requestTracker.get "default/b" = -1)
      (by decide +kernel)
    exact ⟨s, hs, hdone, hneg, fun h => by have := (h.nonneg "default/b").1; omega⟩
  · obtain ⟨s, hs, hsettled, hone, htwo⟩ := exists_of_run step {}
      ([.dispatch smallRequest (disaggregated "a" "a")] ++ tracks 0 4)
      (fun s => s.Settled .requests "default/a" ∧ s.flights.length = 1 ∧ s.producer.requestTracker.get "default/a" = 2)
      (by decide +kernel)
    refine ⟨s, hs, hsettled, hone, htwo, fun h => ?_⟩
    have hcount := h.requests "default/a" hsettled
    have hle : (s.inFlight "default/a").length ≤ s.flights.length := List.length_filter_le _ _
    omega

end Load

end InferenceScheduler.InFlight
