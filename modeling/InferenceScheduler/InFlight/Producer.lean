/-
The in-flight load producer
(`dataproducer/inflightload/producer.go`, `token_estimator.go`): two trackers
count, per endpoint, the requests and the estimated tokens in flight. An
operation takes several atomic steps (`addStep`), because a counter is looked up
under the map's lock and changed outside it. Of an endpoint's metadata only the
name is kept.
-/
import InferenceScheduler.Types
import InferenceScheduler.Lib.Heap
import Mathlib.Algebra.Group.Nat.Defs

namespace InferenceScheduler.InFlight

/-- A Go `int64`. -/
def int64 (x : Int) : Int := x.bmod (2 ^ 64)

/-! ## Endpoints -/

/-- `types.NamespacedName`. -/
structure NamespacedName where
  ns : String
  name : String
  deriving DecidableEq, Repr, Inhabited

/-- `NamespacedName.String()`. -/
def NamespacedName.string (n : NamespacedName) : String := n.ns ++ "/" ++ n.name

/-- `datalayer.EndpointMetadata`. -/
structure EndpointMetadata where
  namespacedName : NamespacedName
  deriving DecidableEq, Repr, Inhabited

/-- The metadata it was made with, and the number of its attribute map. -/
structure Endpoint where
  metadata : Option EndpointMetadata
  attributes : Nat
  deriving DecidableEq, Repr

/-- `ProfileRunResult.TargetEndpoints`; an element is nil or an endpoint. -/
abbrev TargetEndpoints := List (Option Endpoint)

/-- The profile results, which may be nil, in the order of one iteration. -/
structure SchedulingResult where
  profileResults : List (String × Option TargetEndpoints)
  primaryProfileName : String
  deriving DecidableEq, Repr

/-! ## The token estimator -/

/-- What `Estimate` reads of a request. -/
structure Request where
  requestSizeBytes : Int
  inputTokenCountHint : Int
  promptTextLen : Nat
  deriving DecidableEq, Repr

/-- 4 characters a token and 1.5 output tokens an input token, rounded as
`math.Round` does. -/
def Request.estimate (r : Request) : Int :=
  let inputTokens : Int :=
    if r.requestSizeBytes > 0 then max (r.requestSizeBytes / 4) 1
    else if r.inputTokenCountHint ≥ 0 then r.inputTokenCountHint
    else max 1 ((r.promptTextLen + 2) / 4)
  inputTokens + (3 * inputTokens + 1) / 2

/-! ## The trackers -/

/-- The map from endpoint ids to counters, and the counters. -/
structure ConcurrencyTracker where
  counts : String → Option Nat := fun _ => none
  counters : Heap Int := { obj := fun _ => 0 }

namespace ConcurrencyTracker

def get (ct : ConcurrencyTracker) (endpointID : String) : Int :=
  ((ct.counts endpointID).map ct.counters.obj).getD 0

def delete (ct : ConcurrencyTracker) (endpointID : String) : ConcurrencyTracker :=
  { ct with counts := Function.update ct.counts endpointID none }

/-- `counter.Add(delta)`. -/
def bump (ct : ConcurrencyTracker) (counter : Nat) (delta : Int) : ConcurrencyTracker :=
  { ct with counters := ct.counters.set counter (int64 (ct.counters.obj counter + delta)) }

/-- A new counter with its first value. -/
def create (ct : ConcurrencyTracker) (endpointID : String) (delta : Int) : ConcurrencyTracker where
  counts := Function.update ct.counts endpointID (some ct.counters.next)
  counters := ct.counters.alloc delta

end ConcurrencyTracker

/-- Where a goroutine stands in `add`. -/
inductive AddPc
  | lookup
  | bump (counter : Nat)
  | insert
  deriving DecidableEq, Repr

/-- The lookup under the read lock, the addition to the counter found, or the
section under the write lock. -/
def addStep (ct : ConcurrencyTracker) (endpointID : String) (delta : Int) :
    AddPc → ConcurrencyTracker × Option AddPc
  | .lookup =>
    match ct.counts endpointID with
    | some counter => (ct, some (.bump counter))
    | none => (ct, some .insert)
  | .bump counter => (ct.bump counter delta, none)
  | .insert =>
    match ct.counts endpointID with
    | some counter => (ct.bump counter delta, none)
    | none => (ct.create endpointID delta, none)

inductive TrackerId
  | requests
  | tokens
  deriving DecidableEq, Repr

/-- `InFlightLoadProducer`. -/
structure Producer where
  requestTracker : ConcurrencyTracker := {}
  tokenTracker : ConcurrencyTracker := {}

namespace Producer

def tracker (p : Producer) : TrackerId → ConcurrencyTracker
  | .requests => p.requestTracker
  | .tokens => p.tokenTracker

def setTracker (p : Producer) (id : TrackerId) (ct : ConcurrencyTracker) : Producer :=
  match id with
  | .requests => { p with requestTracker := ct }
  | .tokens => { p with tokenTracker := ct }

end Producer

/-! ## What the hooks do to the trackers -/

/-- An operation on a tracker. -/
structure TrackerOp where
  tracker : TrackerId
  endpointID : String
  delta : Int
  deriving DecidableEq, Repr

/-- The id of a profile's first target, unless something on the way is nil. -/
def primaryTarget (r : Option TargetEndpoints) : Option String :=
  match r with
  | some (some e :: _) => e.metadata.map (·.namespacedName.string)
  | _ => none

/-- The increments, or, with `sign` -1, the operations of `release`. -/
def chargeOps (r : Request) (sign : Int) (target : Option String) : List TrackerOp :=
  match target with
  | some id => [⟨.requests, id, sign⟩, ⟨.tokens, id, sign * r.estimate⟩]
  | none => []

def preRequest (r : Request) (result : SchedulingResult) : List TrackerOp :=
  result.profileResults.flatMap fun x => chargeOps r 1 (primaryTarget x.2)

def profilePrefill : String := "prefill"

/-- `none` is a nil dereference: the prefill profile has a nil result. -/
def responseBody (r : Request) (result : SchedulingResult) (startOfStream endOfStream : Bool) :
    Option (List TrackerOp) :=
  let atEnd := if endOfStream then
      (result.profileResults.filter (·.1 ≠ profilePrefill)).flatMap fun x => chargeOps r (-1) (primaryTarget x.2)
    else []
  if startOfStream then
    match result.profileResults.lookup profilePrefill with
    | some none => none
    | some (some targets) => some (chargeOps r (-1) (primaryTarget (some targets)) ++ atEnd)
    | none => some atEnd
  else some atEnd

/-- `DeleteEndpoint`: the trackers an endpoint's id is deleted from. -/
def deleteOps (endpointID : String) : List (TrackerId × String) := [(.requests, endpointID), (.tokens, endpointID)]

end InferenceScheduler.InFlight
