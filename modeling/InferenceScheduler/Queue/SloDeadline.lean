/-
The ordering policy by SLO deadlines
(`flowcontrol/ordering/slodeadline/slo_deadline.go`). A deadline is the time a
request was received plus the milliseconds its header `x-slo-ttft-ms` gives,
computed in nanoseconds of 64 bits, which wraps around above 9223372036854 ms; a
request without a valid SLO gets the last nanosecond that fits, in the year
2262. Where the header's name is there in two spellings, neither of them
`x-slo-ttft-ms`, each call takes the one its loop over the map comes to first.
-/
import InferenceScheduler.Lib.Json
import InferenceScheduler.Lib.Text
import Mathlib.Data.List.Nodup

namespace InferenceScheduler.SloDeadline

/-! ## Times -/

/-- Nanoseconds since 1970; the seconds are counted from the year 1 in 64 bits. -/
def maxSec : Int := 2 ^ 63 - 1 - 62135596800

def minSec : Int := -(2 ^ 63 - 1) - 62135596800

/-- `Time.Add`: the seconds stop at their bounds. -/
def add (t : Int) (d : Int) : Int :=
  let sec := (t + d) / 1000000000
  let nsec := (t + d) % 1000000000
  if 0 < d ∧ maxSec < sec then maxSec * 1000000000 + nsec
  else if d < 0 ∧ sec < minSec then minSec * 1000000000 + nsec
  else t + d

/-- `time.Duration(ms) * time.Millisecond`. -/
def milliseconds (ms : Int) : Int := (ms * 1000000).bmod (2 ^ 64)

/-! ## Deadlines -/

structure Request where
  receivedTimestamp : Int
  /-- `InferenceRequest().Headers`, in the order the loop of one call takes;
  `none` if one of the two is nil. -/
  headers : Option (List (Text × Text))
  distinct : ∀ hs ∈ headers, (hs.map (·.1)).Nodup
  deriving DecidableEq

/-- A `QueueItemAccessor`, by its `OriginalRequest`. -/
structure Item where
  originalRequest : Option Request
  deriving DecidableEq

def sloTtftHeader : Text := "x-slo-ttft-ms".toList

/-- `request.GetHeader`. -/
def getHeader (headers : List (Text × Text)) (key : Text) : Text :=
  match headers.lookup key with
  | some v => v
  | none =>
    let lower := toLowerText key
    match headers.find? fun kv => toLowerText kv.1 = lower with
    | some kv => kv.2
    | none => []

def parseDigits (negative : Bool) (digits : Text) : Option Int :=
  if digits ≠ [] ∧ digits.all Char.isDigit then
    let n : Int := Nat.ofDigitChars 10 digits 0
    let n := if negative then -n else n
    if -2 ^ 63 ≤ n ∧ n < 2 ^ 63 then some n else none
  else none

/-- `strconv.ParseInt(s, 10, 64)`. -/
def parseInt : Text → Option Int
  | '-' :: s => parseDigits true s
  | '+' :: s => parseDigits false s
  | s => parseDigits false s

def sloMaxDeadlineTime : Int := 2 ^ 63 - 1

/-- The milliseconds of a valid SLO. -/
def Request.slo (req : Request) : Option Int :=
  match req.headers with
  | none => none
  | some headers =>
    let sloTtft := getHeader headers sloTtftHeader
    if sloTtft = [] then none else (parseInt (trimSpace sloTtft)).filter fun ms => ¬ ms < 0

def calculateSLODeadline (item : Item) : Int :=
  match item.originalRequest with
  | none => sloMaxDeadlineTime
  | some req =>
    match req.slo with
    | none => sloMaxDeadlineTime
    | some ms => add req.receivedTimestamp (milliseconds ms)

/-- `Less`; a nil item is `none`. -/
def less : Option Item → Option Item → Bool
  | none, _ => false
  | some _, none => true
  | some a, some b =>
    let deadlineA := calculateSLODeadline a
    let deadlineB := calculateSLODeadline b
    if deadlineA ≠ deadlineB then deadlineA < deadlineB
    else
      match a.originalRequest, b.originalRequest with
      | none, _ => false
      | some _, none => true
      | some reqA, some reqB => reqA.receivedTimestamp < reqB.receivedTimestamp

/-! ## The order -/

/-- What `less` compares, the first part first. -/
def rank : Option Item → Int × Int × Int × Int
  | none => (1, 0, 0, 0)
  | some a =>
    match a.originalRequest with
    | none => (0, calculateSLODeadline a, 1, 0)
    | some req => (0, calculateSLODeadline a, 0, req.receivedTimestamp)

theorem less_iff (a b : Option Item) : less a b ↔
    (rank a).1 < (rank b).1 ∨ (rank a).1 = (rank b).1 ∧ ((rank a).2.1 < (rank b).2.1 ∨
      (rank a).2.1 = (rank b).2.1 ∧ ((rank a).2.2.1 < (rank b).2.2.1 ∨
        (rank a).2.2.1 = (rank b).2.2.1 ∧ (rank a).2.2.2 < (rank b).2.2.2)) := by
  cases a with
  | none => cases b with
    | none => simp [less, rank]
    | some b => cases hb : b.originalRequest <;> simp [less, rank, hb]
  | some a => cases b with
    | none => cases ha : a.originalRequest <;> simp [less, rank, ha]
    | some b =>
      unfold less
      by_cases h : calculateSLODeadline a = calculateSLODeadline b <;>
        cases ha : a.originalRequest <;> cases hb : b.originalRequest <;> simp [rank, ha, hb, h]

/-- **`Less` is a strict weak order on all items**, nil ones among them. -/
theorem less_strictWeak : (∀ a, less a a = false) ∧ (∀ a b c, less a b → less b c → less a c) ∧
    ∀ a b c, ¬ less a b → ¬ less b c → ¬ less a c := by
  refine ⟨fun a => ?_, fun a b c hab hbc => ?_, fun a b c hab hbc => ?_⟩
  · rw [Bool.eq_false_iff, ne_eq, less_iff]
    omega
  · rw [less_iff] at hab hbc ⊢
    omega
  · rw [less_iff] at hab hbc ⊢
    omega

/-! ## The calls -/

/-- What two calls see of a request. -/
def Request.Same (a b : Request) : Prop :=
  a.receivedTimestamp = b.receivedTimestamp ∧ Option.Rel List.Perm a.headers b.headers

/-- What two calls see of an item. -/
def Same : Option Item → Option Item → Prop :=
  Option.Rel fun a b => Option.Rel Request.Same a.originalRequest b.originalRequest

/-- The header is there under its own name, or all its spellings have one value. -/
def Request.Clear (req : Request) : Prop :=
  ∀ hs ∈ req.headers, (hs.lookup sloTtftHeader).isSome ∨ ∀ x ∈ hs, ∀ y ∈ hs,
    toLowerText x.1 = toLowerText sloTtftHeader → toLowerText y.1 = toLowerText sloTtftHeader → x.2 = y.2

def Clear (a : Option Item) : Prop := ∀ item ∈ a, ∀ req ∈ item.originalRequest, req.Clear

section Perm

variable {hs hs' : List (Text × Text)} (h : hs.Perm hs')

include h

theorem find?_of_perm {p : Text × Text → Bool} (heq : ∀ x ∈ hs, ∀ y ∈ hs, p x → p y → x.2 = y.2) :
    (hs.find? p).map (·.2) = (hs'.find? p).map (·.2) := by
  cases hx : hs.find? p with
  | none =>
    have hnone : hs'.find? p = none := by
      rw [List.find?_eq_none] at hx ⊢
      exact fun y hy => hx y (h.mem_iff.mpr hy)
    rw [hnone]
  | some x =>
    have hmem := List.mem_of_find?_eq_some hx
    cases hy : hs'.find? p with
    | none => exact absurd (List.find?_some hx) (List.find?_eq_none.mp hy x (h.mem_iff.mp hmem))
    | some y =>
      have hmem' := h.mem_iff.mpr (List.mem_of_find?_eq_some hy)
      exact congrArg Option.some (heq x hmem y hmem' (List.find?_some hx) (List.find?_some hy))

theorem lookup_of_perm (hnodup : (hs.map (·.1)).Nodup) (key : Text) : hs.lookup key = hs'.lookup key := by
  have hfind : ∀ l : List (Text × Text), l.lookup key = (l.find? fun x => x.1 = key).map (·.2) := by
    intro l
    induction l with
    | nil => rfl
    | cons x l ih =>
      obtain ⟨k, v⟩ := x
      by_cases hk : k = key
      · simp [hk]
      · simp [List.lookup_cons, hk, beq_eq_false_iff_ne.mpr (Ne.symm hk), ih]
  rw [hfind, hfind]
  refine find?_of_perm h fun x hx y hy hpx hpy => ?_
  rw [List.inj_on_of_nodup_map hnodup hx hy (by simp_all)]

theorem getHeader_of_perm (hnodup : (hs.map (·.1)).Nodup) {key : Text}
    (hclear : (hs.lookup key).isSome ∨ ∀ x ∈ hs, ∀ y ∈ hs, toLowerText x.1 = toLowerText key →
      toLowerText y.1 = toLowerText key → x.2 = y.2) : getHeader hs key = getHeader hs' key := by
  unfold getHeader
  rw [← lookup_of_perm h hnodup]
  cases hv : hs.lookup key with
  | some v => rfl
  | none =>
    have heq := find?_of_perm h (p := fun kv => toLowerText kv.1 = toLowerText key) fun x hx y hy hpx hpy =>
      (hclear.resolve_left (by simp [hv])) x hx y hy (of_decide_eq_true hpx) (of_decide_eq_true hpy)
    dsimp only
    generalize hs.find? _ = x at heq ⊢
    generalize hs'.find? _ = y at heq ⊢
    cases x <;> cases y <;> simp_all

end Perm

theorem slo_of_same {a b : Request} (h : a.Same b) (hclear : a.Clear) : a.slo = b.slo := by
  obtain ⟨-, hrel⟩ := h
  unfold Request.slo
  cases ha : a.headers with
  | none =>
    rw [ha] at hrel
    cases hb : b.headers with
    | none => rfl
    | some hs => rw [hb] at hrel; cases hrel
  | some hs =>
    rw [ha] at hrel
    cases hb : b.headers with
    | none => rw [hb] at hrel; cases hrel
    | some hs' =>
      rw [hb] at hrel
      cases hrel with
      | some hperm => simp only [getHeader_of_perm hperm (a.distinct hs ha) (hclear hs ha)]

theorem rank_of_same {a b : Option Item} (h : Same a b) (hclear : Clear a) : rank a = rank b := by
  cases h with
  | none => rfl
  | @some a b h =>
    cases ha : a.originalRequest with
    | none =>
      rw [ha] at h
      cases hb : b.originalRequest with
      | none => simp [rank, calculateSLODeadline, ha, hb]
      | some reqB => rw [hb] at h; cases h
    | some reqA =>
      rw [ha] at h
      cases hb : b.originalRequest with
      | none => rw [hb] at h; cases h
      | some reqB =>
        rw [hb] at h
        cases h with
        | some hreq => simp [rank, calculateSLODeadline, ha, hb, slo_of_same hreq (hclear a rfl reqA ha), hreq.1]

/-- **Every call gives the same answer** about two clear items. -/
theorem less_of_same {a b a' b' : Option Item} (ha : Clear a) (hb : Clear b) (hsame : Same a a') (hsame' : Same b b') :
    less a' b' = less a b := by
  rw [Bool.eq_iff_iff, less_iff, less_iff, rank_of_same hsame ha, rank_of_same hsame' hb]

/-! ## Requests -/

/-- The queue item of a request. -/
def Request.item (req : Request) : Option Item := some ⟨some req⟩

def Request.deadline (req : Request) : Int := calculateSLODeadline ⟨some req⟩

theorem less_item (a b : Request) : less a.item b.item ↔
    a.deadline < b.deadline ∨ a.deadline = b.deadline ∧ a.receivedTimestamp < b.receivedTimestamp := by
  simp [less_iff, rank, Request.item, Request.deadline]

/-- What is asked of the order among the requests of a set. -/
structure Ordered (R : Request → Prop) : Prop where
  smaller_first : ∀ a b x y, R a → R b → a.receivedTimestamp = b.receivedTimestamp → a.slo = some x →
    b.slo = some y → x < y → ¬ less b.item a.item
  valid_first : ∀ a b x, R a → R b → a.slo = some x → b.slo = none → ¬ less b.item a.item

/-- Neither the nanoseconds of the SLO nor the seconds of the deadline pass their
64 bits. -/
def Request.Fits (req : Request) : Prop :=
  ∀ ms, req.slo = some ms → ms * 1000000 < 2 ^ 63 ∧ (req.receivedTimestamp + ms * 1000000) / 1000000000 ≤ maxSec

/-- The deadline of a request with an SLO is before the one that means no SLO, or is
that one, and the request without came no earlier. -/
def Timely (a b : Request) : Prop :=
  ∀ ms, a.slo = some ms → b.slo = none → a.receivedTimestamp + ms * 1000000 < sloMaxDeadlineTime ∨
    a.receivedTimestamp + ms * 1000000 = sloMaxDeadlineTime ∧ a.receivedTimestamp ≤ b.receivedTimestamp

variable {ms M T : Int} {req : Request}

theorem slo_nonneg (h : req.slo = some ms) : 0 ≤ ms := by
  unfold Request.slo at h
  split at h
  · cases h
  · simp only at h
    split at h
    · cases h
    · simpa using (Option.filter_eq_some_iff.mp h).2

theorem deadline_of_slo (h : req.slo = some ms) : req.deadline = add req.receivedTimestamp (milliseconds ms) := by
  simp [Request.deadline, calculateSLODeadline, h]

theorem deadline_of_none (h : req.slo = none) : req.deadline = sloMaxDeadlineTime := by
  simp [Request.deadline, calculateSLODeadline, h]

theorem milliseconds_eq (h₀ : 0 ≤ ms) (h : ms * 1000000 < 2 ^ 63) : milliseconds ms = ms * 1000000 :=
  Int.bmod_eq_of_le (by omega) (by omega)

theorem deadline_of_fits (h : req.slo = some ms) (hfits : req.Fits) :
    req.deadline = req.receivedTimestamp + ms * 1000000 := by
  have h₀ := slo_nonneg h
  obtain ⟨hmul, hadd⟩ := hfits ms h
  rw [deadline_of_slo h, milliseconds_eq h₀ hmul]
  simp only [add]
  rw [if_neg (by omega), if_neg (by omega)]

/-- **Among requests that fit** the order is right exactly if those with an SLO are
timely for those without. -/
theorem ordered_iff {R : Request → Prop} (h : ∀ req, R req → req.Fits) :
    Ordered R ↔ ∀ a b, R a → R b → Timely a b := by
  have hvalid : ∀ a b x, R a → a.slo = some x → b.slo = none → (¬ less b.item a.item ↔ Timely a b) := by
    intro a b x ha hx hb
    rw [less_item, deadline_of_fits hx (h a ha), deadline_of_none hb]
    constructor
    · intro hnot ms hms _
      obtain rfl : x = ms := by simpa [hx] using hms
      omega
    · intro htimely
      have := htimely x hx hb
      omega
  constructor
  · intro hord a b ha hb ms hms hnone
    exact (hvalid a b ms ha hms hnone).mp (hord.valid_first a b ms ha hb hms hnone) ms hms hnone
  · intro htimely
    refine ⟨fun a b x y ha hb hr hx hy hxy => ?_, fun a b x ha hb hx hnone => ?_⟩
    · rw [less_item, deadline_of_fits hx (h a ha), deadline_of_fits hy (h b hb)]
      omega
    · exact (hvalid a b x ha hx hnone).mpr (htimely a b ha hb)

/-! ## Bounded SLOs -/

/-- A request with the digits of an SLO. -/
def withSlo (receivedTimestamp : Int) (ms : Nat) : Request :=
  ⟨receivedTimestamp, some [(sloTtftHeader, Nat.toDigits 10 ms)], by simp⟩

def withoutSlo (receivedTimestamp : Int) : Request := ⟨receivedTimestamp, none, nofun⟩

theorem trimSpace_digits {s : Text} (h : ∀ c ∈ s, c.isDigit) : trimSpace s = s :=
  trimSpace_eq_self fun c hc => by
    have : 48 ≤ c.toNat ∧ c.toNat ≤ 57 := by
      simpa [Char.isDigit, UInt32.le_iff_toNat_le] using h c hc
    exact isUnicodeSpace_of_visible (by omega)

theorem parseInt_toDigits {ms : Nat} (h : ms < 2 ^ 63) : parseInt (Nat.toDigits 10 ms) = some (ms : Int) := by
  have hd : ∀ c ∈ Nat.toDigits 10 ms, c.isDigit := fun c hc => Nat.isDigit_of_mem_toDigits (by decide) (by decide) hc
  have hsign : parseInt (Nat.toDigits 10 ms) = parseDigits false (Nat.toDigits 10 ms) := by
    unfold parseInt
    split
    · next s hs => exact absurd (hd '-' (by simp [hs])) (by decide)
    · next s hs => exact absurd (hd '+' (by simp [hs])) (by decide)
    · rfl
  have hall : (Nat.toDigits 10 ms).all Char.isDigit := List.all_eq_true.mpr hd
  rw [hsign, parseDigits, if_pos ⟨Nat.toDigits_ne_nil, hall⟩, Nat.ofDigitChars_ten_toDigits]
  exact if_pos (by simp only [Bool.false_eq_true, if_false]; omega)

theorem slo_withSlo (t : Int) {ms : Nat} (h : ms < 2 ^ 63) : (withSlo t ms).slo = some (ms : Int) := by
  have hd : ∀ c ∈ Nat.toDigits 10 ms, c.isDigit := fun c hc => Nat.isDigit_of_mem_toDigits (by decide) (by decide) hc
  simp [withSlo, Request.slo, getHeader, Nat.toDigits_ne_nil, trimSpace_digits hd, parseInt_toDigits h]

/-- The requests received at `T` or before, with SLOs of at most `M`. -/
def Upto (M T : Int) (req : Request) : Prop :=
  req.receivedTimestamp ≤ T ∧ ∀ ms, req.slo = some ms → ms ≤ M

theorem upto_withSlo {t : Int} {ms : Nat} (h : ms < 2 ^ 63) (ht : t ≤ T) (hms : (ms : Int) ≤ M) :
    Upto M T (withSlo t ms) := by
  refine ⟨ht, fun x hx => ?_⟩
  rw [slo_withSlo t h, Option.some.injEq] at hx
  omega

/-- The first SLO that wraps around sorts before the last one that does not. -/
theorem not_ordered_of_wraps (h : 9223372036855 ≤ M) (hT : 0 ≤ T) : ¬ Ordered (Upto M T) := by
  intro hord
  refine hord.smaller_first (withSlo 0 9223372036854) (withSlo 0 9223372036855) _ _
    (upto_withSlo (by decide) hT (by push_cast; omega)) (upto_withSlo (by decide) hT (by push_cast; omega)) rfl
    (slo_withSlo 0 (by decide)) (slo_withSlo 0 (by decide)) (by decide) ?_
  rw [less_item, deadline_of_slo (slo_withSlo 0 (by decide)), deadline_of_slo (slo_withSlo 0 (by decide))]
  decide

/-- An SLO that ends after 2262 sorts after a missing one. -/
theorem not_ordered_of_late (h₀ : 0 ≤ M) (hM : M * 1000000 < 2 ^ 63)
    (h : sloMaxDeadlineTime ≤ T + M * 1000000) : ¬ Ordered (Upto M T) := by
  intro hord
  obtain ⟨ms, rfl⟩ := Int.eq_ofNat_of_zero_le h₀
  have hlt : ms < 2 ^ 63 := by omega
  refine hord.valid_first (withSlo T ms) (withoutSlo (T - 1)) ms (upto_withSlo hlt le_rfl le_rfl)
    ⟨?_, fun _ hx => ?_⟩ (slo_withSlo T hlt) rfl ?_
  · simp only [withoutSlo]
    omega
  · cases hx
  · rw [less_item, deadline_of_slo (slo_withSlo T hlt), deadline_of_none rfl, milliseconds_eq h₀ hM]
    simp only [add, maxSec, minSec, withSlo, withoutSlo, sloMaxDeadlineTime] at h ⊢
    omega

/-- **The SLO order.** `Less` is a strict weak order on all items, and its calls agree
on those with a clear header. Among requests that fit, a smaller SLO does not sort
after a larger one and a valid one not after a missing one exactly if all deadlines
are timely; and among all requests with bounded SLOs and times this holds exactly
if the bounds fit (times since 1970). -/
theorem slo_order_iff (M T : Int) (h₀ : 0 ≤ M) (hT : 0 ≤ T) :
    ((∀ a, less a a = false) ∧ (∀ a b c, less a b → less b c → less a c) ∧
      ∀ a b c, ¬ less a b → ¬ less b c → ¬ less a c) ∧
    (∀ a b a' b', Clear a → Clear b → Same a a' → Same b b' → less a' b' = less a b) ∧
    (∀ R : Request → Prop, (∀ req, R req → req.Fits) → (Ordered R ↔ ∀ a b, R a → R b → Timely a b)) ∧
    (Ordered (Upto M T) ↔ M * 1000000 < 2 ^ 63 ∧ T + M * 1000000 < sloMaxDeadlineTime) := by
  refine ⟨less_strictWeak, fun _ _ _ _ => less_of_same, fun R => ordered_iff, fun hord => ?_, fun h => ?_⟩
  · have hM : M * 1000000 < 2 ^ 63 := by
      by_contra hM
      exact not_ordered_of_wraps (by omega) hT hord
    exact ⟨hM, by_contra fun hlate => not_ordered_of_late h₀ hM (by omega) hord⟩
  · have hbound : ∀ req, Upto M T req → ∀ ms, req.slo = some ms → ms * 1000000 < 2 ^ 63 ∧
        req.receivedTimestamp + ms * 1000000 < sloMaxDeadlineTime := fun req hreq ms hms => by
      have := hreq.2 ms hms
      have := hreq.1
      omega
    refine (ordered_iff fun req hreq ms hms => ?_).mpr fun a b ha _ ms hms _ => .inl (hbound a ha ms hms).2
    obtain ⟨hmul, hadd⟩ := hbound req hreq ms hms
    refine ⟨hmul, ?_⟩
    simp only [maxSec, sloMaxDeadlineTime] at hadd ⊢
    omega

/-- An SLO of 9000000000000 ms and one of 1 ms, both of 2026, with none missing. -/
theorem slo_order_iff_pair :
    let a := withSlo 1763000000000000000 9000000000000
    let b := withSlo 1763000000000000000 1
    Ordered (fun req => req = a ∨ req = b) ∧ less b.item a.item ∧ Ordered (Upto 60000 1763000000000000000) := by
  intro a b
  have hlaws := slo_order_iff 60000 1763000000000000000 (by decide) (by decide)
  have hslo : ∀ req, req = a ∨ req = b → ∃ ms, req.slo = some ms ∧ ms * 1000000 < 2 ^ 63 ∧
      (req.receivedTimestamp + ms * 1000000) / 1000000000 ≤ maxSec := by
    rintro req (rfl | rfl)
    · exact ⟨_, slo_withSlo _ (by decide), by decide⟩
    · exact ⟨_, slo_withSlo _ (by decide), by decide⟩
  refine ⟨(hlaws.2.2.1 _ fun req hreq ms hms => ?_).mpr fun x y _ hy ms _ hnone => ?_, by decide +kernel,
    hlaws.2.2.2.mpr (by decide)⟩
  · obtain ⟨x, hx, hfits⟩ := hslo req hreq
    rw [hx] at hms
    cases hms
    exact hfits
  · obtain ⟨x, hx, -⟩ := hslo y hy
    rw [hx] at hnone
    cases hnone

/-- A request with two spellings of the header, in the order one loop takes. -/
def twoSpellings (first second : Text × Text) (h : first.1 ≠ second.1) : Request :=
  ⟨1763000000000000000, some [first, second], by simpa using h⟩

/-- An SLO of 9223372036855 ms sorts before one of 1 ms, and one of 9000000000000
ms after none, for requests received in 2026; and a request with two spellings of
the header sorts before and after another one. -/
theorem large_slo_misordered :
    less (withSlo 1763000000000000000 9223372036855).item (withSlo 1763000000000000000 1).item ∧
      less (withoutSlo 1763000000000000000).item (withSlo 1763000000000000000 9000000000000).item ∧
      less (twoSpellings ("X-SLO-TTFT-MS".toList, ['1']) ("X-Slo-Ttft-Ms".toList, ['9']) (by decide)).item
        (withSlo 1763000000000000000 5).item ∧
      less (withSlo 1763000000000000000 5).item
        (twoSpellings ("X-Slo-Ttft-Ms".toList, ['9']) ("X-SLO-TTFT-MS".toList, ['1']) (by decide)).item := by
  decide +kernel

end InferenceScheduler.SloDeadline
