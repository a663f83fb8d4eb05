/-
Managed queues and the statistics of their shard (`registry/managedqueue.go`,
`registry/shard.go`, `registry/registry.go`). An operation of a managed queue
holds the queue's mutex, calls the `SafeQueue` behind it and adds its deltas to
ten counters, one atomic add after the other, while flows come and go; the
processor's `hasCapacity` reads four of them, one at a time. Bands are not
removed here.
-/
import InferenceScheduler.Queue.Refined
import Mathlib.Algebra.BigOperators.Ring.Finset

namespace InferenceScheduler.Statistics

open Function (update)
open Queue (HandleId World Result)

/-! ## Counters -/

inductive Measure
  | len
  | byteSize
  deriving DecidableEq, Repr

/-- A managed queue, a band of the shard, the shard, the registry's statistics of a
band, or the registry. -/
inductive Scope (κ : Type*)
  | queue (q : κ)
  | band (priority : Int)
  | shard
  | bandStats (priority : Int)
  | registry
  deriving DecidableEq

/-- An `atomic.Int64`. -/
structure Counter (κ : Type*) where
  scope : Scope κ
  measure : Measure
  deriving DecidableEq

/-- The flows of a shard and its configuration; a limit of 0 is none. -/
structure Setup (κ ι : Type*) where
  priority : κ → Int
  kind : κ → Queue.Kind
  less : κ → ι → ι → Bool
  size : ι → BitVec 64
  maxBytes : BitVec 64
  maxRequests : BitVec 64
  bandMaxBytes : Int → BitVec 64
  bandMaxRequests : Int → BitVec 64

section

variable {κ ι : Type*} (S : Setup κ ι)

/-- The counters `propagateStatsDeltaLocked` adds to, in order. -/
def Setup.propagated (q : κ) : List (Counter κ) :=
  [⟨.queue q, .len⟩, ⟨.queue q, .byteSize⟩, ⟨.band (S.priority q), .len⟩, ⟨.band (S.priority q), .byteSize⟩,
    ⟨.shard, .len⟩, ⟨.shard, .byteSize⟩, ⟨.bandStats (S.priority q), .len⟩, ⟨.bandStats (S.priority q), .byteSize⟩,
    ⟨.registry, .len⟩, ⟨.registry, .byteSize⟩]

/-- The counters of which `hasCapacity` uses what `Stats` has read, in the
order of the reads. -/
def Setup.statsReads (q : κ) : List (Counter κ) :=
  [⟨.shard, .byteSize⟩, ⟨.shard, .len⟩, ⟨.band (S.priority q), .byteSize⟩, ⟨.band (S.priority q), .len⟩]

/-- The limit on what a counter counts. -/
def Setup.capacity (c : Counter κ) : BitVec 64 :=
  match c.scope, c.measure with
  | .shard, .byteSize => S.maxBytes
  | .shard, .len => S.maxRequests
  | .band p, .byteSize => S.bandMaxBytes p
  | .band p, .len => S.bandMaxRequests p
  | _, _ => 0

/-- What one item adds to a counter. -/
def Setup.need (x : ι) : Measure → BitVec 64
  | .len => 1
  | .byteSize => S.size x

/-- `hasCapacity`, given what `Stats` has read. -/
def Setup.hasCapacity (x : ι) (seen : List (Counter κ × BitVec 64)) : Bool :=
  seen.all fun (c, v) => !(0 < S.capacity c && S.capacity c < v + S.need x c.measure)

/-! ## The system -/

/-- The operations of a managed queue. -/
inductive Op (ι : Type*)
  | add (x : ι)
  | remove (handle : Option HandleId)
  | cleanup (predicate : ι → Bool)
  | drain

/-- The call of the `SafeQueue`. -/
def Op.on (q : κ) : Op ι → Queue.Op κ ι
  | .add x => .add q x
  | .remove handle => .remove q handle
  | .cleanup predicate => .cleanup q predicate
  | .drain => .drain q

/-- What an operation has to report: the item added, or those removed. -/
inductive Change (ι : Type*)
  | added (x : ι)
  | removed (l : List ι)

/-- The `int64` deltas an operation computes; those of a batch are computed
item by item. -/
def Change.delta (size : ι → BitVec 64) : Change ι → Measure → BitVec 64
  | .added _, .len => 1
  | .added x, .byteSize => size x
  | .removed l, .len => l.foldl (fun d _ => d - 1) 0
  | .removed l, .byteSize => l.foldl (fun d x => d - size x) 0

/-- A failed `Remove` and a batch of no items report nothing. -/
def change : Op ι → Result ι → Option (Change ι)
  | .add x, _ => some (.added x)
  | _, .removed x => some (.removed [x])
  | _, .items (x :: l) => some (.removed (x :: l))
  | _, _ => none

/-- In `hasCapacity` for an item (`stats`) or past it (`admitted`), in an operation
with the mutex locked, or adding its deltas. -/
inductive Pc (κ ι : Type*)
  | idle
  | stats (q : κ) (x : ι) (todo : List (Counter κ)) (seen : List (Counter κ × BitVec 64))
  | admitted (q : κ) (x : ι)
  | locked (q : κ) (op : Op ι)
  | reporting (q : κ) (ch : Change ι) (todo : List (Counter κ))

/-- `created` are the managed queues made so far and `registered` those in the
bands of the shard. -/
structure State (κ ι Tid : Type*) where
  world : World κ ι
  created : Finset κ := ∅
  registered : Finset κ := ∅
  isDraining : Bool := false
  mu : κ → Option Tid := fun _ => none
  counter : Counter κ → BitVec 64 := fun _ => 0
  pc : Tid → Pc κ ι := fun _ => .idle
  panicked : Bool := false

def State.new {Tid : Type*} : State κ ι Tid := { world := .new S.kind }

inductive Act (κ ι Tid : Type*)
  /-- `synchronizeFlow`. -/
  | create (q : κ)
  /-- `deleteFlow`. -/
  | delete (q : κ)
  | markAsDraining
  /-- An operation locks the mutex. -/
  | call (t : Tid) (q : κ) (op : Op ι)
  /-- `enqueue` of an item comes to `hasCapacity`. -/
  | enqueue (t : Tid) (q : κ) (x : ι)
  /-- The goroutine's next step. -/
  | next (t : Tid)

variable {Tid : Type*} [DecidableEq κ] [DecidableEq ι] [DecidableEq Tid]

def State.goto (s : State κ ι Tid) (t : Tid) (pc : Pc κ ι) : State κ ι Tid :=
  { s with pc := update s.pc t pc }

/-- The operation returns and its deferred `Unlock` runs. -/
def State.unlock (s : State κ ι Tid) (t : Tid) (q : κ) : State κ ι Tid :=
  { s with mu := update s.mu q none, pc := update s.pc t .idle }

def State.lock (s : State κ ι Tid) (t : Tid) (q : κ) (op : Op ι) : State κ ι Tid :=
  { s with mu := update s.mu q (some t), pc := update s.pc t (.locked q op) }

/-- An atomic add. -/
def State.addTo (s : State κ ι Tid) (c : Counter κ) (d : BitVec 64) : State κ ι Tid :=
  { s with counter := update s.counter c (s.counter c + d) }

/-- `Add` refuses items of a draining shard. -/
def refuses (isDraining : Bool) : Op ι → Bool
  | .add _ => isDraining
  | _ => false

/-- The next step of a goroutine. -/
def next (s : State κ ι Tid) (t : Tid) : Option (State κ ι Tid) :=
  match s.pc t with
  | .idle => none
  | .stats q x (c :: todo) seen => some (s.goto t (.stats q x todo (seen ++ [(c, s.counter c)])))
  | .stats q x [] seen => some (s.goto t (if S.hasCapacity x seen then .admitted q x else .idle))
  | .admitted q x => if s.mu q = none then some (s.lock t q (.add x)) else none
  | .locked q op =>
    if refuses s.isDraining op then some (s.unlock t q)
    else
      let (world, r) := s.world.exec S.less S.size (op.on q)
      let s := { s with world := world }
      match change op r with
      | none => some (s.unlock t q)
      | some ch => some (s.goto t (.reporting q ch (S.propagated q)))
  | .reporting q ch (c :: todo) =>
    let s := s.addTo c (ch.delta S.size c.measure)
    -- the queue's own length must not become negative
    if c = ⟨.queue q, .len⟩ ∧ (s.counter c).msb then some { s.unlock t q with panicked := true }
    else some (s.goto t (.reporting q ch todo))
  | .reporting q _ [] => some (s.unlock t q)

/-- A step of the system; a panic ends it. -/
def step (s : State κ ι Tid) (a : Act κ ι Tid) : Option (State κ ι Tid) :=
  if s.panicked then none
  else
    match a with
    | .create q =>
      if q ∈ s.created then none
      else some { s with created := insert q s.created, registered := insert q s.registered }
    | .delete q => some { s with registered := s.registered.erase q }
    | .markAsDraining => some { s with isDraining := true }
    | .call t q op =>
      match s.pc t with
      | .idle => if q ∈ s.created ∧ s.mu q = none then some (s.lock t q op) else none
      | _ => none
    | .enqueue t q x =>
      match s.pc t with
      | .idle => if q ∈ s.created then some (s.goto t (.stats q x (S.statsReads q) [])) else none
      | _ => none
    | .next t => next S s t

/-! ## What a step does -/

inductive Moves (s : State κ ι Tid) : Act κ ι Tid → State κ ι Tid → Prop
  | create {q : κ} : q ∉ s.created →
      Moves s (.create q) { s with created := insert q s.created, registered := insert q s.registered }
  | delete {q : κ} : Moves s (.delete q) { s with registered := s.registered.erase q }
  | markAsDraining : Moves s .markAsDraining { s with isDraining := true }
  | call {t : Tid} {q : κ} {op : Op ι} : s.pc t = .idle → q ∈ s.created → s.mu q = none →
      Moves s (.call t q op) (s.lock t q op)
  | enqueue {t : Tid} {q : κ} {x : ι} : s.pc t = .idle → q ∈ s.created →
      Moves s (.enqueue t q x) (s.goto t (.stats q x (S.statsReads q) []))
  | read {t : Tid} {q : κ} {x : ι} {c : Counter κ} {todo : List (Counter κ)} {seen : List (Counter κ × BitVec 64)} :
      s.pc t = .stats q x (c :: todo) seen →
      Moves s (.next t) (s.goto t (.stats q x todo (seen ++ [(c, s.counter c)])))
  | accept {t : Tid} {q : κ} {x : ι} {seen : List (Counter κ × BitVec 64)} : s.pc t = .stats q x [] seen →
      S.hasCapacity x seen = true → Moves s (.next t) (s.goto t (.admitted q x))
  | reject {t : Tid} {q : κ} {x : ι} {seen : List (Counter κ × BitVec 64)} : s.pc t = .stats q x [] seen →
      Moves s (.next t) (s.goto t .idle)
  | lockAdd {t : Tid} {q : κ} {x : ι} : s.pc t = .admitted q x → s.mu q = none →
      Moves s (.next t) (s.lock t q (.add x))
  | refuse {t : Tid} {q : κ} {op : Op ι} : s.pc t = .locked q op → Moves s (.next t) (s.unlock t q)
  /-- The `SafeQueue` has nothing to report. -/
  | quiet {t : Tid} {q : κ} {op : Op ι} {w : World κ ι} {r : Result ι} : s.pc t = .locked q op →
      s.world.exec S.less S.size (op.on q) = (w, r) → change op r = none →
      Moves s (.next t) ({ s with world := w }.unlock t q)
  | exec {t : Tid} {q : κ} {op : Op ι} {w : World κ ι} {r : Result ι} {ch : Change ι} : s.pc t = .locked q op →
      s.world.exec S.less S.size (op.on q) = (w, r) → change op r = some ch →
      Moves s (.next t) ({ s with world := w }.goto t (.reporting q ch (S.propagated q)))
  | report {t : Tid} {q : κ} {ch : Change ι} {c : Counter κ} {todo : List (Counter κ)} :
      s.pc t = .reporting q ch (c :: todo) →
      Moves s (.next t) ((s.addTo c (ch.delta S.size c.measure)).goto t (.reporting q ch todo))
  | panic {t : Tid} {q : κ} {ch : Change ι} {todo : List (Counter κ)} :
      s.pc t = .reporting q ch (⟨.queue q, .len⟩ :: todo) →
      ((s.addTo ⟨.queue q, .len⟩ (ch.delta S.size .len)).counter ⟨.queue q, .len⟩).msb = true →
      Moves s (.next t) { (s.addTo ⟨.queue q, .len⟩ (ch.delta S.size .len)).unlock t q with panicked := true }
  | done {t : Tid} {q : κ} {ch : Change ι} : s.pc t = .reporting q ch [] → Moves s (.next t) (s.unlock t q)

theorem next_moves {s s' : State κ ι Tid} {t : Tid} (h : next S s t = some s') : Moves S s (.next t) s' := by
  unfold next at h
  split at h
  · cases h
  · rename_i hpc
    cases h
    exact .read hpc
  · rename_i hpc
    cases h
    split
    · rename_i hcap
      exact .accept hpc hcap
    · exact .reject hpc
  · rename_i hpc
    split at h
    · rename_i hmu
      cases h
      exact .lockAdd hpc hmu
    · cases h
  · rename_i hpc
    split at h
    · cases h
      exact .refuse hpc
    · dsimp only at h
      split at h
      · rename_i hch
        cases h
        exact .quiet hpc rfl hch
      · rename_i hch
        cases h
        exact .exec hpc rfl hch
  · rename_i hpc
    dsimp only at h
    split at h
    · rename_i hneg
      obtain ⟨rfl, hmsb⟩ := hneg
      cases h
      exact .panic hpc hmsb
    · cases h
      exact .report hpc
  · rename_i hpc
    cases h
    exact .done hpc

/-- **Every step is one of the moves**, and starts before any panic. -/
theorem step_moves {s s' : State κ ι Tid} {a : Act κ ι Tid} (h : step S s a = some s') :
    s.panicked = false ∧ Moves S s a s' := by
  unfold step at h
  split at h
  · cases h
  · rename_i hp
    refine ⟨Bool.eq_false_iff.mpr hp, ?_⟩
    split at h
    · split at h
      · cases h
      · rename_i hq
        cases h
        exact .create hq
    · cases h
      exact .delete
    · cases h
      exact .markAsDraining
    · split at h
      · rename_i hpc
        split at h
        · rename_i hq
          cases h
          exact .call hpc hq.1 hq.2
        · cases h
      · cases h
    · split at h
      · rename_i hpc
        split at h
        · rename_i hq
          cases h
          exact .enqueue hpc hq
        · cases h
      · cases h
    · exact next_moves S h

end

end InferenceScheduler.Statistics
