/-
The concurrency saturation detector (`saturationdetector/concurrency`): its
configuration, and the saturation it computes from the load attributes of the
endpoints. A `float64` is a rational here; the sums are Go `int64`s.
-/
import InferenceScheduler.InFlight.Producer
import Mathlib.Algebra.Ring.Int.Defs
import Mathlib.Data.Rat.Defs

namespace InferenceScheduler.InFlight

/-! ## Attributes -/

structure InFlightLoad where
  tokens : Int := 0
  requests : Int := 0
  deriving DecidableEq, Repr

/-- An attribute's value, up to whether the detector's type assertion accepts
it. -/
inductive Attribute
  | inFlightLoad (l : InFlightLoad)
  | other
  deriving DecidableEq, Repr

/-- `Attributes`. -/
abbrev AttributeMap := String → Option Attribute

def inFlightLoadKey : String := "InFlightLoadKey"

/-! ## Configuration -/

inductive ConcurrencyMode
  | requests
  | tokens
  deriving DecidableEq, Repr

/-- `apiConfig`; an unset field is `none`. -/
structure ApiConfig where
  maxConcurrency : Option Int := none
  headroom : Option Rat := none
  concurrencyMode : Option String := none
  maxTokenConcurrency : Option Int := none

/-- `config`, with what `validateConfig` has checked. -/
structure Config where
  maxConcurrency : Int
  headroom : Rat
  mode : ConcurrencyMode
  maxTokenConcurrency : Int
  maxConcurrency_pos : 0 < maxConcurrency
  headroom_nonneg : 0 ≤ headroom
  maxTokenConcurrency_pos : 0 < maxTokenConcurrency

/-- The modes `validateConfig` accepts. -/
def parseMode (mode : String) : Option ConcurrencyMode :=
  if mode = "requests" then some .requests else if mode = "tokens" then some .tokens else none

/-- The errors `validateConfig` joins, after the defaults. -/
def validateConfig (maxConcurrency : Int) (headroom : Rat) (mode : String) (maxTokenConcurrency : Int) :
    List String :=
  (if maxConcurrency ≤ 0 then ["maxConcurrency must be strictly positive, got %d"] else []) ++
  (if headroom < 0 then ["headroom must be a non-negative value, got %f"] else []) ++
  (if maxTokenConcurrency ≤ 0 then ["maxTokenConcurrency must be strictly positive, got %d"] else []) ++
  (if (parseMode mode).isNone then ["unsupported concurrencyMode: %q"] else [])

/-- `buildConfig`: the defaults, then the checks. -/
def buildConfig (c : ApiConfig) : Except (List String) Config :=
  let maxConcurrency := c.maxConcurrency.getD 100
  let headroom := c.headroom.getD 0
  let mode := c.concurrencyMode.getD "requests"
  let maxTokenConcurrency := c.maxTokenConcurrency.getD 1000000
  match parseMode mode with
  | some parsed =>
    if h : 0 < maxConcurrency ∧ 0 ≤ headroom ∧ 0 < maxTokenConcurrency then
      .ok ⟨maxConcurrency, headroom, parsed, maxTokenConcurrency, h.1, h.2.1, h.2.2⟩
    else .error (validateConfig maxConcurrency headroom mode maxTokenConcurrency)
  | none => .error (validateConfig maxConcurrency headroom mode maxTokenConcurrency)

theorem buildConfig_error {c : ApiConfig} {errs : List String} (h : buildConfig c = .error errs) : errs ≠ [] := by
  simp only [buildConfig] at h
  split at h
  · split at h
    · cases h
    · rename_i hbad
      cases h
      intro hnil
      simp only [validateConfig, List.append_eq_nil_iff, ite_eq_right_iff, List.cons_ne_nil, imp_false] at hnil
      obtain ⟨⟨⟨hmax, hhead⟩, htok⟩, -⟩ := hnil
      exact hbad ⟨by omega, Rat.not_lt.mp hhead, by omega⟩
  · rename_i hmode
    cases h
    simp [validateConfig, hmode]

/-- The configured capacity of an endpoint. -/
def Config.capacity (c : Config) : Int :=
  match c.mode with
  | .tokens => c.maxTokenConcurrency
  | .requests => c.maxConcurrency

/-- What the mode counts of a load. -/
def Config.measure (c : Config) (l : InFlightLoad) : Int :=
  match c.mode with
  | .tokens => l.tokens
  | .requests => l.requests

/-! ## Saturation -/

def getLoad (m : AttributeMap) : InFlightLoad :=
  match m inFlightLoadKey with
  | some (.inFlightLoad l) => l
  | _ => {}

/-- One endpoint in the loop of `Saturation`; one without metadata is
skipped. -/
def accumulate (c : Config) (totals : Int × Int) (e : Option EndpointMetadata × AttributeMap) : Int × Int :=
  if e.1.isNone then totals
  else (int64 (totals.1 + c.measure (getLoad e.2)), int64 (totals.2 + c.capacity))

def saturation (c : Config) (endpoints : List (Option EndpointMetadata × AttributeMap)) : Rat :=
  let (totalInflight, totalCapacity) := endpoints.foldl (accumulate c) (0, 0)
  if totalCapacity = 0 then 1 else (totalInflight : Rat) / totalCapacity

/-- The total configured capacity of the endpoints. -/
def totalCapacity (c : Config) (endpoints : List (Option EndpointMetadata × AttributeMap)) : Int :=
  (endpoints.map fun e => if e.1.isSome then c.capacity else 0).sum

theorem int64_add_int64 (x y : Int) : int64 (int64 x + y) = int64 (x + y) := by
  simp [int64]

theorem foldl_accumulate {c : Config} {endpoints : List (Option EndpointMetadata × AttributeMap)}
    (h : ∀ e ∈ endpoints, e.2 inFlightLoadKey = none) :
    endpoints.foldl (accumulate c) (0, 0) = (0, int64 (totalCapacity c endpoints)) := by
  suffices hgen : ∀ x, endpoints.foldl (accumulate c) (0, int64 x) = (0, int64 (x + totalCapacity c endpoints)) by
    rw [← Int.zero_add (totalCapacity c endpoints)]
    exact hgen 0
  induction endpoints with
  | nil => simp [totalCapacity]
  | cons e endpoints ih =>
    intro x
    have he : getLoad e.2 = {} := by simp [getLoad, h e List.mem_cons_self]
    have hrest := ih fun e' he' => h e' (List.mem_cons_of_mem _ he')
    have hstep : accumulate c (0, int64 x) e = (0, int64 (x + if e.1.isSome then c.capacity else 0)) := by
      unfold accumulate
      cases hm : e.1 with
      | none => simp
      | some m =>
        simp only [Option.isNone_some, Bool.false_eq_true, if_false, Option.isSome_some, if_true, int64_add_int64, he]
        unfold Config.measure
        split <;> rfl
    rw [List.foldl_cons, hstep, hrest, totalCapacity, totalCapacity, List.map_cons, List.sum_cons, Int.add_assoc]

end InferenceScheduler.InFlight
