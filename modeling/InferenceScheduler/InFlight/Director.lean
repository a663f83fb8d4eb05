/-
The way of a request through the director, as far as the in-flight load goes:
the datastore's endpoints, the snapshot `toSchedulerEndpoints` makes of the
candidates, the data producers that write to it, `PreRequest` and the response's
chunks. Attribute maps are objects (`Heap`), so that a snapshot's can be told
from the datastore's. The labels carry what is decided elsewhere.
-/
import InferenceScheduler.InFlight.Detector
import InferenceScheduler.Lib.Run

namespace InferenceScheduler.InFlight

open Function (update)

/-- `datalayer.ModelServer`, an endpoint of the datastore. -/
structure ModelServer where
  metadata : Option EndpointMetadata
  attributes : Nat

/-- In the loop of `toSchedulerEndpoints`, before the scheduler's result, in a tracker
operation of `PreRequest` or `ResponseBody` (`last`: of the stream's end), or between. -/
inductive RequestPc
  | idle
  | cloning (r : Request) (todo : List Nat) (made : List Endpoint)
  | scheduling (r : Request)
  | tracking (r : Request) (result : SchedulingResult) (started last : Bool) (ops : List TrackerOp) (pc : AddPc)
  | serving (r : Request) (result : SchedulingResult) (started : Bool)
  | returned

/-- `pool` is what the dispatch loop's `Locate` cached; `deleting` are the delete events
under way; `snapshots` and `preparing` are each request's scheduling endpoints and
those `PrepareRequestData` has still to write to. -/
structure State (Rid : Type) where
  producer : Producer := {}
  attrs : Heap AttributeMap := { obj := fun _ _ => none }
  servers : Heap ModelServer := { obj := fun _ => ⟨none, 0⟩ }
  pods : List (NamespacedName × Nat) := []
  pool : List Nat := []
  deleting : List (List (TrackerId × String)) := []
  requests : Rid → RequestPc := fun _ => .idle
  snapshots : Rid → List Endpoint := fun _ => []
  preparing : Rid → List Endpoint := fun _ => []
  crashed : Bool := false

/-- The labels. -/
inductive Act (Rid : Type)
  | podUpdate (m : EndpointMetadata) (made : Bool)
  | podRemove (name : NamespacedName)
  | deleteEndpoint (event : Nat)
  | extractModels (server : Nat)
  | refresh (pool : List Nat)
  | start (t : Rid) (r : Request) (candidates : List Nat)
  | clone (t : Rid)
  | prepare (t : Rid)
  | put (t : Rid) (i : Nat) (key : String) (value : Attribute)
  | schedule (t : Rid) (result : SchedulingResult)
  | fail (t : Rid)
  | track (t : Rid)
  | chunk (t : Rid) (endOfStream : Bool) (order : List (String × Option TargetEndpoints))

variable {Rid : Type} [DecidableEq Rid]

namespace State

def goto (s : State Rid) (t : Rid) (pc : RequestPc) : State Rid :=
  { s with requests := update s.requests t pc }

/-- `Put` on the attribute map `a`. -/
def put (s : State Rid) (a : Nat) (key : String) (value : Attribute) : State Rid :=
  { s with attrs := s.attrs.set a (update (s.attrs.obj a) key (some value)) }

/-- What `Saturation` reads of a server. -/
def view (s : State Rid) (v : Nat) : Option EndpointMetadata × AttributeMap :=
  ((s.servers.obj v).metadata, s.attrs.obj (s.servers.obj v).attributes)

end State

def modelsAttributeKey : String := "/v1/models"

/-- The targets of a result come from the request's snapshot. -/
def drawnFrom (snapshot : List Endpoint) (result : SchedulingResult) : Bool :=
  result.profileResults.all fun x => (x.2.getD []).all fun e => e.all (· ∈ snapshot)

/-- There is the primary profile's result, a target in it and the targets' metadata. -/
def primaryOk (result : SchedulingResult) : Bool :=
  match result.profileResults.lookup result.primaryProfileName with
  | some (some targets) => targets ≠ [] ∧ ∀ e ∈ targets, (e.bind (·.metadata)).isSome
  | _ => false

/-- One endpoint of `podUpdateOrAddIfNotExist`; `made`: the factory returns one. -/
def podUpdate (s : State Rid) (m : EndpointMetadata) (made : Bool) : State Rid :=
  match s.pods.lookup m.namespacedName with
  | some v => { s with servers := s.servers.set v { s.servers.obj v with metadata := some m } }
  | none =>
    if made then { s with
      attrs := s.attrs.alloc fun _ => none
      servers := s.servers.alloc { metadata := some m, attributes := s.attrs.next }
      pods := (m.namespacedName, s.servers.next) :: s.pods }
    else s

/-- An endpoint leaves the datastore; `ExtractEndpoint` needs its metadata. -/
def podRemove (s : State Rid) (name : NamespacedName) : Option (State Rid) :=
  (s.pods.lookup name).map fun v =>
    let s' := { s with pods := s.pods.filter (·.1 ≠ name) }
    match (s.servers.obj v).metadata with
    | some m => { s' with deleting := s.deleting ++ [deleteOps m.namespacedName.string] }
    | none => { s' with crashed := true }

/-- One step of `DeleteEndpoint`. -/
def deleteEndpoint (s : State Rid) (event : Nat) : Option (State Rid) :=
  match s.deleting[event]? with
  | some ((id, endpointID) :: ops) => some { s with
      producer := s.producer.setTracker id ((s.producer.tracker id).delete endpointID)
      deleting := s.deleting.set event ops }
  | _ => none

/-- `NewEndpoint` for the next candidate; after the last, the data producers start. -/
def clone (s : State Rid) (t : Rid) : Option (State Rid) :=
  match s.requests t with
  | .cloning r (v :: todo) made =>
    let (metadata, attributes) := s.view v
    let s' := { s with attrs := s.attrs.alloc attributes }
    some (s'.goto t (.cloning r todo (made ++ [{ metadata, attributes := s.attrs.next }])))
  | .cloning r [] made =>
    some ({ s with
      snapshots := update s.snapshots t made
      preparing := update s.preparing t made }.goto t (.scheduling r))
  | _ => none

/-- The next endpoint of `PrepareRequestData`, whose goroutine goes on when the
director no longer waits for it. -/
def prepare (s : State Rid) (t : Rid) : Option (State Rid) :=
  match s.preparing t with
  | e :: rest =>
    match e.metadata with
    | some m =>
      let endpointID := m.namespacedName.string
      let load : InFlightLoad :=
        { tokens := s.producer.tokenTracker.get endpointID, requests := s.producer.requestTracker.get endpointID }
      some ({ s with preparing := update s.preparing t rest }.put e.attributes inFlightLoadKey
        (.inFlightLoad load))
    | none => some { s with crashed := true }
  | [] => none

/-- The scheduler's result and the start of `PreRequest`. -/
def schedule (s : State Rid) (t : Rid) (result : SchedulingResult) : Option (State Rid) :=
  match s.requests t with
  | .scheduling r =>
    if drawnFrom (s.snapshots t) result then
      if result.profileResults = [] then some (s.goto t .returned)
      else if primaryOk result then some (s.goto t (.tracking r result false false (preRequest r result) .lookup))
      else some { s with crashed := true }
    else none
  | _ => none

/-- One step of a tracker operation. -/
def track (s : State Rid) (t : Rid) : Option (State Rid) :=
  match s.requests t with
  | .tracking r result started last (op :: ops) pc =>
    let (ct, next) := addStep (s.producer.tracker op.tracker) op.endpointID op.delta pc
    some ({ s with producer := s.producer.setTracker op.tracker ct }.goto t
      (match next with
        | some pc => .tracking r result started last (op :: ops) pc
        | none => .tracking r result started last ops .lookup))
  | .tracking r result started last [] _ =>
    some (s.goto t (if last then .returned else .serving r result started))
  | _ => none

/-- A chunk of the response. -/
def chunk (s : State Rid) (t : Rid) (endOfStream : Bool) (order : List (String × Option TargetEndpoints)) :
    Option (State Rid) :=
  match s.requests t with
  | .serving r result started =>
    if order.Perm result.profileResults then
      match responseBody r { result with profileResults := order } (!started) endOfStream with
      | some ops => some (s.goto t (.tracking r result true endOfStream ops .lookup))
      | none => some { s with crashed := true }
    else none
  | _ => none

/-- The system. -/
def step (s : State Rid) (a : Act Rid) : Option (State Rid) :=
  if s.crashed then none else
  match a with
  | .podUpdate m made => some (podUpdate s m made)
  | .podRemove name => podRemove s name
  | .deleteEndpoint event => deleteEndpoint s event
  | .extractModels v =>
    if v < s.servers.next then some (s.put (s.servers.obj v).attributes modelsAttributeKey .other) else none
  | .refresh pool => if pool.Perm (s.pods.map (·.2)) then some { s with pool } else none
  | .start t r candidates =>
    match s.requests t with
    | .idle =>
      if ∀ v ∈ candidates, v < s.servers.next then
        some (s.goto t (if candidates = [] then .returned else .cloning r candidates []))
      else none
    | _ => none
  | .clone t => clone s t
  | .prepare t => prepare s t
  | .put t i key value => (s.snapshots t)[i]?.map fun e => s.put e.attributes key value
  | .schedule t result => schedule s t result
  | .fail t =>
    match s.requests t with
    | .scheduling _ => some (s.goto t .returned)
    | _ => none
  | .track t => track s t
  | .chunk t endOfStream order => chunk s t endOfStream order

/-! ## The signal and the load -/

/-- The value a dispatch cycle computes. -/
def State.saturation (s : State Rid) (c : Config) : Rat := InFlight.saturation c (s.pool.map s.view)

/-- The load the producer's trackers have for an endpoint. -/
def State.tracked (s : State Rid) (c : Config) (m : EndpointMetadata) : Int :=
  c.measure { tokens := s.producer.tokenTracker.get m.namespacedName.string
              requests := s.producer.requestTracker.get m.namespacedName.string }

/-- The load of the endpoints of the dispatch cycle. -/
def State.trackedLoad (s : State Rid) (c : Config) : Int :=
  (s.pool.map fun v => ((s.servers.obj v).metadata.map (s.tracked c)).getD 0).sum

/-- Their capacity. -/
def State.capacity (s : State Rid) (c : Config) : Int := totalCapacity c (s.pool.map s.view)

end InferenceScheduler.InFlight
