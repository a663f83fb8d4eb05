/-
`registry/leasing.go`: reference-counted leases on the objects of a `sync.Map`,
pinned by requests and collected when idle. A step is one `sync.Map` operation
or one critical section of a lease mutex. `PinPc` is where a goroutine stands in
`pinLeasedResource`, `CollectPc` where the collector stands.
-/
import InferenceScheduler.Types
import Mathlib.Logic.Function.Basic
import Mathlib.Tactic.Simps.Basic

namespace InferenceScheduler.Registry

open Function (update update_apply)

/-- A reading of the clock; `0` is the zero `time.Time`. -/
abbrev Time := Nat

structure LeasedState where
  leaseCount : Int := 0
  becameIdleAt : Time := 0
  markedForDeletion : Bool := false
  deriving DecidableEq, Repr, Inhabited

namespace LeasedState

/-- One lease more, and active. -/
@[simps]
def pinned (ls : LeasedState) : LeasedState := { ls with leaseCount := ls.leaseCount + 1, becameIdleAt := 0 }

/-- Acquires a lease unless the resource is marked for deletion. -/
def tryPin (ls : LeasedState) : Bool × LeasedState :=
  if ls.markedForDeletion then (false, ls) else (true, ls.pinned)

/-- Releases a lease, marking the resource idle if the count drops to zero. -/
@[simps]
def unpin (ls : LeasedState) (now : Time) : LeasedState :=
  { ls with
    leaseCount := ls.leaseCount - 1
    becameIdleAt := if ls.leaseCount - 1 = 0 then now else ls.becameIdleAt }

/-- Whether the resource has been idle for the timeout; if so it is marked. -/
def checkAndMarkForDeletion (ls : LeasedState) (timeout : Int) (now : Time) : Bool × LeasedState :=
  if 0 < ls.leaseCount then (false, { ls with becameIdleAt := 0 })
  else if ls.becameIdleAt = 0 then (false, { ls with becameIdleAt := now })
  else if (now : Int) - ls.becameIdleAt < timeout then (false, ls)
  else (true, { ls with markedForDeletion := true })

theorem tryPin_cases (ls : LeasedState) :
    (ls.markedForDeletion = true ∧ ls.tryPin = (false, ls)) ∨
      (ls.markedForDeletion = false ∧ ls.tryPin = (true, ls.pinned)) := by
  unfold tryPin
  cases ls.markedForDeletion <;> simp

@[simp] theorem check_leaseCount (ls : LeasedState) (timeout : Int) (now : Time) :
    (ls.checkAndMarkForDeletion timeout now).2.leaseCount = ls.leaseCount := by
  unfold checkAndMarkForDeletion
  split <;> (try split) <;> (try split) <;> rfl

variable {ls : LeasedState} {now : Time} {timeout : Int}

theorem check_marked_of_false (h : (ls.checkAndMarkForDeletion timeout now).1 = false) :
    (ls.checkAndMarkForDeletion timeout now).2.markedForDeletion = ls.markedForDeletion := by
  unfold checkAndMarkForDeletion at h ⊢
  split
  · rfl
  · split
    · rfl
    · split
      · rfl
      · simp_all

/-- Free of leases, and idle for at least the timeout. -/
def IdleFor (ls : LeasedState) (timeout : Int) (now : Time) : Prop :=
  ls.leaseCount ≤ 0 ∧ ls.becameIdleAt ≠ 0 ∧ timeout ≤ (now : Int) - ls.becameIdleAt

instance (ls : LeasedState) (timeout : Int) (now : Time) : Decidable (ls.IdleFor timeout now) :=
  inferInstanceAs (Decidable (_ ∧ _ ∧ _))

theorem check_iff : (ls.checkAndMarkForDeletion timeout now).1 = true ↔ ls.IdleFor timeout now := by
  unfold checkAndMarkForDeletion IdleFor
  split
  · simp only [Bool.false_eq_true, false_iff, not_and]; omega
  · split
    · simp_all
    · split
      · simp only [Bool.false_eq_true, false_iff, not_and]; omega
      · simp only [true_iff]; exact ⟨by omega, ‹_›, by omega⟩

theorem check_of_true (h : (ls.checkAndMarkForDeletion timeout now).1 = true) :
    ls.leaseCount ≤ 0 ∧ (ls.checkAndMarkForDeletion timeout now).2.markedForDeletion = true := by
  unfold checkAndMarkForDeletion at h ⊢
  split
  · simp_all
  · split
    · simp_all
    · split
      · simp_all
      · exact ⟨by omega, rfl⟩

end LeasedState

/-! ## The map and its objects -/

/-- One `sync.Map` of leased objects and every object it has ever held, numbered in
order of creation. -/
structure Leases (K : Type) where
  table : K → Option Nat
  obj : Nat → LeasedState
  key : Nat → K
  next : Nat

namespace Leases

variable {K : Type} [DecidableEq K]

def empty [Inhabited K] : Leases K := ⟨fun _ => none, fun _ => {}, fun _ => default, 0⟩

/-- `LoadOrStore(k, createFn())` on an absent key. -/
@[simps -fullyApplied]
def create (m : Leases K) (k : K) : Leases K where
  table := update m.table k (some m.next)
  obj := update m.obj m.next {}
  key := update m.key m.next k
  next := m.next + 1

/-- `Delete(k)` and `LoadAndDelete(k)`. -/
@[simps -fullyApplied]
def erase (m : Leases K) (k : K) : Leases K := { m with table := update m.table k none }

/-- A critical section of object `v`'s lease mutex. -/
@[simps -fullyApplied]
def setObj (m : Leases K) (v : Nat) (ls : LeasedState) : Leases K :=
  { m with obj := update m.obj v ls }

/-- The map's current object for its own key. -/
def Live (m : Leases K) (v : Nat) : Prop := m.table (m.key v) = some v

instance (m : Leases K) (v : Nat) : Decidable (m.Live v) :=
  inferInstanceAs (Decidable (m.table (m.key v) = some v))

/-- Object `v` exists and was created for `k`. -/
def Has (m : Leases K) (k : K) (v : Nat) : Prop := v < m.next ∧ m.key v = k

section Has

variable {m : Leases K} {k k' : K} {v w : Nat}

omit [DecidableEq K] in
@[simp] theorem has_setObj {ls : LeasedState} : (m.setObj w ls).Has k v ↔ m.Has k v := Iff.rfl

@[simp] theorem has_erase : (m.erase k').Has k v ↔ m.Has k v := Iff.rfl

theorem has_next : (m.create k).Has k m.next := ⟨by simp, by simp⟩

theorem Has.create (h : m.Has k v) : (m.create k').Has k v := by
  have hne : v ≠ m.next := by have := h.1; omega
  exact ⟨by simp only [create_next]; have := h.1; omega, by simp [hne, h.2]⟩

theorem create_key_of_lt (h : v < m.next) : (m.create k).key v = m.key v := by
  simp [show v ≠ m.next by omega]

omit [DecidableEq K] in
theorem Has.live_iff (h : m.Has k v) : m.Live v ↔ m.table k = some v := by
  rw [Live, h.2]

omit [DecidableEq K] in
theorem has_of_live (hm : ∀ k v, m.table k = some v → m.Has k v) (h : m.Live v) : v < m.next := (hm _ _ h).1

theorem live_create (hk : m.table k = none) :
    (m.create k).Live v ↔ v = m.next ∨ m.Live v := by
  by_cases hv : v = m.next
  · simp [Live, hv]
  · simp only [Live, create_table, create_key, Function.update_of_ne hv, hv, false_or, update_apply]
    split
    · rename_i e
      simp [e, hk, Ne.symm hv]
    · rfl

theorem live_erase : (m.erase k).Live v ↔ m.Live v ∧ m.key v ≠ k := by
  simp only [Live, erase_table, erase_key, update_apply]
  split <;> simp_all

end Has

end Leases

/-! ## `pinLeasedResource` -/

/-- Where a goroutine stands in the loop of `pinLeasedResource`. -/
inductive PinPc
  | load
  | loadOrStore
  | tryPin (v : Nat) (isNew : Bool)
  | recheck (v : Nat) (isNew : Bool)
  | backOff (v : Nat)
  deriving DecidableEq, Repr

/-- The loop goes on, or returns the object and whether this call created it. -/
inductive PinOut
  | goOn (pc : PinPc)
  | pinned (v : Nat) (isNew : Bool)
  deriving DecidableEq, Repr

variable {K : Type} [DecidableEq K]

/-- `now` is the clock reading of the back-off's `unpin`. -/
def pinStep (m : Leases K) (k : K) (now : Time) : PinPc → Leases K × PinOut
  | .load =>
    match m.table k with
    | some v => (m, .goOn (.tryPin v false))
    | none => (m, .goOn .loadOrStore)
  | .loadOrStore =>
    match m.table k with
    | some v => (m, .goOn (.tryPin v false))
    | none => (m.create k, .goOn (.tryPin m.next true))
  | .tryPin v isNew =>
    if (m.obj v).tryPin.1 then (m.setObj v (m.obj v).tryPin.2, .goOn (.recheck v isNew))
    else (m, .goOn .load)
  | .recheck v isNew =>
    -- "Did the GC delete this object while we were acquiring it?"
    if m.table k = some v then (m, .pinned v isNew) else (m, .goOn (.backOff v))
  | .backOff v => (m.setObj v ((m.obj v).unpin now), .goOn .load)

/-! ## `collectLeasedResources` -/

/-- The clock reading, the keys `Range` has handed out, the objects removed so far. -/
structure Scan (K : Type) where
  now : Time
  seen : List K := []
  found : List Nat := []
  deriving DecidableEq, Repr

/-- Where the collector stands in `collectLeasedResources`. -/
inductive CollectPc (K : Type)
  | range (s : Scan K)
  | visit (s : Scan K) (k : K) (v : Nat)
  | delete (s : Scan K) (k : K) (v : Nat)
  deriving DecidableEq, Repr

/-- `Range` hands out a key at most once, in no order and without a snapshot. -/
def collectVisit (m : Leases K) (k : K) : CollectPc K → Option (CollectPc K)
  | .range s =>
    if k ∈ s.seen then none
    else (m.table k).map fun v => .visit { s with seen := k :: s.seen } k v
  | _ => none

/-- The callback of `Range`: the idle check, then `LoadAndDelete` of whatever the map
holds under the key by then. -/
def collectStep (m : Leases K) (timeout : Int) : CollectPc K → Option (Leases K × CollectPc K)
  | .range _ => none
  | .visit s k v =>
    let r := (m.obj v).checkAndMarkForDeletion timeout s.now
    some (m.setObj v r.2, if r.1 then .delete s k v else .range s)
  | .delete s k _ =>
    match m.table k with
    | some w => some (m.erase k, .range { s with found := s.found ++ [w] })
    | none => some (m, .range s)

end InferenceScheduler.Registry
