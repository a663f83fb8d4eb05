/-
The active-request scorer (`scheduling/scorer/activerequest`): how many requests
an endpoint is serving, kept by `PreRequest`, `ResponseBody` at the end of the
stream, and the callback of the request cache when an entry expires. The scores,
which are computed from the counts, are left out.

The cache is ttlcache's: `Set` writes over an entry, also over an expired one,
and tells nobody; `GetAndDelete` finds an entry that has not expired; an expired
entry is deleted at some time and handed to the callback, in a goroutine of its
own. What an entry that is written over has counted is never taken off
(`overwritten_entry_leaks`).
-/
import InferenceScheduler.InFlight.Producer
import InferenceScheduler.Lib.Interleave

namespace InferenceScheduler.ActiveRequest

open Function (update)
open InFlight (SchedulingResult TargetEndpoints)
open Interleave (Label State Machine callWeight quiescent step step_cases total total_run total_start)

/-! ## The scorer -/

structure RequestEntry where
  podNames : List String
  requestID : String
  deriving DecidableEq

/-- An entry of the cache. -/
structure Item where
  key : String
  value : RequestEntry
  expiresAt : Int
  deriving DecidableEq

/-- `Item.IsExpired`. -/
def Item.isExpired (item : Item) (now : Int) : Bool := item.expiresAt < now

/-- `ActiveRequest`. -/
structure Scorer where
  requestCache : List Item
  endpointCounts : String → Option Int

namespace Scorer

variable (s : Scorer)

def new : Scorer := { requestCache := [], endpointCounts := fun _ => none }

/-- What is read for an endpoint. -/
def count (e : String) : Int := (s.endpointCounts e).getD 0

def incrementPodCount (endpointName : String) : Scorer :=
  { s with endpointCounts := update s.endpointCounts endpointName (some (s.count endpointName + 1)) }

def decrementPodCount (endpointName : String) : Scorer :=
  match s.endpointCounts endpointName with
  | some count =>
    if count ≤ 1 then { s with endpointCounts := update s.endpointCounts endpointName none }
    else { s with endpointCounts := update s.endpointCounts endpointName (some (count - 1)) }
  | none => s

def find (requestID : String) : Option Item := s.requestCache.find? (·.key = requestID)

def delete (requestID : String) : Scorer := { s with requestCache := s.requestCache.filter (·.key ≠ requestID) }

/-- `requestCache.Set`. -/
def set (item : Item) : Scorer := { s with requestCache := item :: (s.delete item.key).requestCache }

/-- How often the entries of the cache list an endpoint. -/
def live (e : String) : Int := (s.requestCache.map fun item => (item.value.podNames.count e : Int)).sum

end Scorer

/-! ## Steps -/

/-- The atomic steps of the calls. -/
inductive Instr
  /-- The loop of `PreRequest` at the profile results that are left, with the
  names it has collected. -/
  | profile (requestID : String) (results : List (String × Option TargetEndpoints)) (endpointNames : List String)
  | set (requestID : String) (endpointNames : List String)
  | getAndDelete (requestID : String)
  | decrement (endpointName : String)
  deriving DecidableEq

/-- What starts a call. -/
inductive Start
  | preRequest (requestID : String) (result : SchedulingResult)
  | responseBody (requestID : String) (endOfStream hasTarget : Bool)
  /-- The cache deletes an expired entry and starts the callback. -/
  | expire (requestID : String) (now : Int)
  deriving DecidableEq

/-- The decrements for an entry. -/
def release (item : Item) : List Instr := item.value.podNames.map .decrement

namespace Scorer

variable (s : Scorer)

def start : Start → Option (Scorer × List Instr)
  | .preRequest requestID result => some (s, [.profile requestID result.profileResults []])
  | .responseBody requestID endOfStream hasTarget =>
    some (s, if !endOfStream then [] else if !hasTarget then [] else [.getAndDelete requestID])
  | .expire requestID now =>
    match s.find requestID with
    | some item => if item.isExpired now then some (s.delete requestID, release item) else none
    | none => none

/-- A step at a reading of the clock. `GetMetadata` of a nil endpoint panics, as does
the name of nil metadata. -/
def exec (requestTimeout : Int) (i : Instr) (now : Int) : Option (Scorer × List Instr) :=
  match i with
  | .profile requestID [] endpointNames => some (s, [.set requestID endpointNames])
  | .profile requestID ((_, none) :: results) endpointNames => some (s, [.profile requestID results endpointNames])
  | .profile requestID ((_, some []) :: results) endpointNames => some (s, [.profile requestID results endpointNames])
  | .profile requestID ((_, some (target :: _)) :: results) endpointNames =>
    match target.bind (·.metadata) with
    | none => none
    | some metadata =>
      let endpointName := metadata.namespacedName.string
      some (s.incrementPodCount endpointName, [.profile requestID results (endpointNames ++ [endpointName])])
  | .set requestID endpointNames =>
    let entry : RequestEntry := { podNames := endpointNames, requestID }
    some (s.set { key := requestID, value := entry, expiresAt := now + requestTimeout }, [])
  | .getAndDelete requestID =>
    match s.find requestID with
    | some item => if item.isExpired now then some (s, []) else some (s.delete requestID, release item)
    | none => some (s, [])
  | .decrement endpointName => some (s.decrementPodCount endpointName, [])

end Scorer

def machine (requestTimeout : Int) : Machine Scorer Instr Start Int where
  start := Scorer.start
  exec := fun s i now => s.exec requestTimeout i now

/-- No call yet. -/
def init : State Scorer Instr := { shared := Scorer.new, calls := [] }

/-- `PreRequest` stores its entry under an ID that has none in the cache. -/
def fresh (s : State Scorer Instr) : Label Start Int → Bool
  | .run k _ =>
    match s.calls[k]? with
    | some (.set requestID _ :: _) => (s.shared.find requestID).isNone
    | _ => true
  | _ => true

/-! ## Counts -/

section Counts

variable {s : Scorer} {endpointName e : String}

theorem count_update {v : Option Int} :
    Scorer.count { s with endpointCounts := update s.endpointCounts endpointName v } e =
      if endpointName = e then v.getD 0 else s.count e := by
  simp only [Scorer.count, Function.update_apply, @eq_comm _ e]
  split <;> rfl

theorem count_incrementPodCount :
    (s.incrementPodCount endpointName).count e = s.count e + if endpointName = e then 1 else 0 := by
  rw [Scorer.incrementPodCount, count_update]
  split
  · rename_i he
    rw [he, Option.getD_some]
  · exact (Int.add_zero _).symm

theorem count_decrementPodCount (h : 1 ≤ s.count endpointName) :
    (s.decrementPodCount endpointName).count e = s.count e - if endpointName = e then 1 else 0 := by
  have hread : ∀ n, s.endpointCounts endpointName = some n → s.count endpointName = n := by
    intro n hn
    rw [Scorer.count, hn, Option.getD_some]
  unfold Scorer.decrementPodCount
  split
  · rename_i n hn
    rw [hread n hn] at h
    split
    · rw [count_update]
      split
      · rename_i he
        rw [← he, hread n hn, Option.getD_none]
        omega
      · exact (Int.sub_zero _).symm
    · rw [count_update]
      split
      · rename_i he
        rw [← he, hread n hn, Option.getD_some]
      · exact (Int.sub_zero _).symm
  · rename_i hnone
    rw [Scorer.count, hnone, Option.getD_none] at h
    omega

/-- The counts that are stored are not zero or less. -/
def Scorer.Positive (s : Scorer) : Prop := ∀ e n, s.endpointCounts e = some n → 1 ≤ n

theorem Scorer.Positive.count_nonneg (h : s.Positive) (e : String) : 0 ≤ s.count e := by
  rw [Scorer.count]
  cases hc : s.endpointCounts e with
  | none => exact Int.le_refl _
  | some n => exact Int.le_trans (by decide) (h e n hc)

theorem Scorer.Positive.update (h : s.Positive) {v : Option Int} (hv : ∀ n, v = some n → 1 ≤ n) :
    Scorer.Positive { s with endpointCounts := update s.endpointCounts endpointName v } := by
  intro e n hn
  by_cases he : e = endpointName
  · subst he
    simp only [Function.update_self] at hn
    exact hv n hn
  · simp only [Function.update_of_ne he] at hn
    exact h e n hn

theorem Scorer.Positive.increment (h : s.Positive) : (s.incrementPodCount endpointName).Positive := by
  refine h.update fun n hn => ?_
  have := h.count_nonneg endpointName
  rw [← Option.some.inj hn]
  omega

theorem Scorer.Positive.decrement (h : s.Positive) : (s.decrementPodCount endpointName).Positive := by
  unfold Scorer.decrementPodCount
  split
  · split
    · exact h.update nofun
    · refine h.update fun n hn => ?_
      rw [← Option.some.inj hn]
      omega
  · exact h

end Counts

/-! ## The cache -/

section Cache

variable {s : Scorer} {requestID e : String} {item : Item}

/-- No two entries have one key. -/
def Scorer.Keyed (s : Scorer) : Prop := (s.requestCache.map Item.key).Nodup

theorem Scorer.Keyed.delete (h : s.Keyed) : (s.delete requestID).Keyed :=
  h.sublist (List.filter_sublist.map _)

theorem Scorer.Keyed.set (h : s.Keyed) : (s.set item).Keyed := by
  refine List.nodup_cons.mpr ⟨fun hmem => ?_, h.delete⟩
  obtain ⟨other, hother, hkey⟩ := List.mem_map.mp hmem
  exact of_decide_eq_true (List.mem_filter.mp hother).2 hkey

theorem key_of_find (h : s.find requestID = some item) : item.key = requestID := by
  have := List.find?_some h
  exact of_decide_eq_true this

theorem live_delete (hk : s.Keyed) (h : s.find requestID = some item) :
    (s.delete requestID).live e = s.live e - item.value.podNames.count e := by
  have hkey := key_of_find h
  subst hkey
  exact sum_map_filter_key Item.key _ hk (List.mem_of_find?_eq_some h)

theorem delete_of_find_none (h : s.find requestID = none) : s.delete requestID = s := by
  have : s.requestCache.filter (·.key ≠ requestID) = s.requestCache := by
    rw [List.filter_eq_self]
    intro other hother
    have := List.find?_eq_none.mp h other hother
    simpa using this
  rw [Scorer.delete, this]

theorem live_set (h : s.find item.key = none) : (s.set item).live e = s.live e + item.value.podNames.count e := by
  rw [Scorer.set, delete_of_find_none h, Scorer.live, List.map_cons, List.sum_cons, Scorer.live]
  omega

end Cache

/-! ## Balance -/

section Balance

variable {s s' : Scorer} {i : Instr} {more : List Instr} {requestTimeout now : Int} {e : String}

/-- What a step to come counts for an endpoint: the names a `PreRequest` has
collected, and a decrement that is due. -/
def Instr.weight (e : String) : Instr → Int
  | .profile _ _ endpointNames => endpointNames.count e
  | .set _ endpointNames => endpointNames.count e
  | .getAndDelete _ => 0
  | .decrement endpointName => if endpointName = e then 1 else 0

theorem weight_nonneg (e : String) (i : Instr) : 0 ≤ i.weight e := by
  cases i with
  | profile _ _ names | set _ names => exact Int.natCast_nonneg _
  | getAndDelete _ => exact Int.le_refl _
  | decrement name =>
    simp only [Instr.weight]
    split <;> omega

theorem callWeight_singleton : callWeight (Instr.weight e) [i] = i.weight e := Int.add_zero _

theorem callWeight_release (item : Item) :
    callWeight (Instr.weight e) (release item) = item.value.podNames.count e := by
  rw [release]
  induction item.value.podNames with
  | nil => rfl
  | cons name names ih =>
    simp only [callWeight, List.map_cons, List.sum_cons, Instr.weight] at ih ⊢
    rw [ih, List.count_cons]
    simp only [beq_iff_eq]
    split <;> omega

/-- **What a step can be**: nothing, a name that is counted, an entry stored or taken
out, or a decrement. -/
theorem exec_cases (hx : s.exec requestTimeout i now = some (s', more)) :
    (s' = s ∧ ∀ e, callWeight (Instr.weight e) more = i.weight e) ∨
    (∃ requestID results names rest name, i = .profile requestID results names ∧ s' = s.incrementPodCount name ∧
      more = [.profile requestID rest (names ++ [name])]) ∨
    (∃ requestID names, i = .set requestID names ∧
      s' = s.set { key := requestID, value := ⟨names, requestID⟩, expiresAt := now + requestTimeout } ∧ more = []) ∨
    (∃ requestID item, i = .getAndDelete requestID ∧ s.find requestID = some item ∧ s' = s.delete requestID ∧
      more = release item) ∨
    (∃ name, i = .decrement name ∧ s' = s.decrementPodCount name ∧ more = []) := by
  cases i with
  | profile requestID results names =>
    unfold Scorer.exec at hx
    split at hx
    · cases hx
      rename_i heq
      cases heq
      exact .inl ⟨rfl, fun _ => callWeight_singleton⟩
    · cases hx
      rename_i heq
      cases heq
      exact .inl ⟨rfl, fun _ => callWeight_singleton⟩
    · cases hx
      rename_i heq
      cases heq
      exact .inl ⟨rfl, fun _ => callWeight_singleton⟩
    · rename_i heq
      cases heq
      split at hx
      · cases hx
      · cases hx
        exact .inr (.inl ⟨requestID, _, names, _, _, rfl, rfl, rfl⟩)
    all_goals (rename_i heq; cases heq)
  | set requestID names =>
    cases hx
    exact .inr (.inr (.inl ⟨requestID, names, rfl, rfl, rfl⟩))
  | getAndDelete requestID =>
    simp only [Scorer.exec] at hx
    split at hx
    · rename_i item hfind
      split at hx
      · cases hx
        exact .inl ⟨rfl, fun _ => rfl⟩
      · cases hx
        exact .inr (.inr (.inr (.inl ⟨requestID, item, rfl, hfind, rfl, rfl⟩)))
    · cases hx
      exact .inl ⟨rfl, fun _ => rfl⟩
  | decrement name =>
    cases hx
    exact .inr (.inr (.inr (.inr ⟨name, rfl, rfl, rfl⟩)))

theorem exec_positive (h : s.Positive) (hx : s.exec requestTimeout i now = some (s', more)) : s'.Positive := by
  rcases exec_cases hx with ⟨rfl, -⟩ | ⟨_, _, _, _, _, -, rfl, -⟩ | ⟨_, _, -, rfl, -⟩ | ⟨_, _, -, -, rfl, -⟩ | ⟨_, -, rfl, -⟩
  · exact h
  · exact h.increment
  · exact h
  · exact h
  · exact h.decrement

theorem requestCache_decrementPodCount (name : String) : (s.decrementPodCount name).requestCache = s.requestCache := by
  unfold Scorer.decrementPodCount
  split
  · split <;> rfl
  · rfl

theorem exec_keyed (hk : s.Keyed) (hx : s.exec requestTimeout i now = some (s', more)) : s'.Keyed := by
  rcases exec_cases hx with ⟨rfl, -⟩ | ⟨_, _, _, _, _, -, rfl, -⟩ | ⟨_, _, -, rfl, -⟩ | ⟨_, _, -, -, rfl, -⟩ | ⟨name, -, rfl, -⟩
  · exact hk
  · exact hk
  · exact hk.set
  · exact hk.delete
  · rw [Scorer.Keyed, requestCache_decrementPodCount]
    exact hk

/-- **A step moves a count as it moves what the cache and the steps to come
count**, as long as a decrement finds the count above zero and no entry is
written over. -/
theorem exec_balance (hk : s.Keyed) (hle : ∀ e, i.weight e ≤ s.count e)
    (hset : ∀ requestID names, i = .set requestID names → s.find requestID = none)
    (hx : s.exec requestTimeout i now = some (s', more)) (e : String) :
    s'.count e - s'.live e = s.count e - s.live e - i.weight e + callWeight (Instr.weight e) more := by
  have hnil : callWeight (Instr.weight e) [] = 0 := rfl
  rcases exec_cases hx with ⟨rfl, hw⟩ | ⟨_, _, names, _, name, rfl, rfl, rfl⟩ | ⟨requestID, names, rfl, rfl, rfl⟩ |
    ⟨requestID, item, rfl, hfind, rfl, rfl⟩ | ⟨name, rfl, rfl, rfl⟩
  · rw [hw e]
    omega
  · have hlive : (s.incrementPodCount name).live e = s.live e := rfl
    rw [callWeight_singleton, count_incrementPodCount, hlive]
    simp only [Instr.weight, List.count_append, List.count_singleton, beq_iff_eq]
    split <;> omega
  · have hcount : ∀ item, (s.set item).count e = s.count e := fun _ => rfl
    rw [live_set (hset requestID names rfl), hcount, hnil]
    simp only [Instr.weight]
    omega
  · have hcount : (s.delete requestID).count e = s.count e := rfl
    rw [callWeight_release, live_delete hk hfind, hcount]
    simp only [Instr.weight]
    omega
  · have hone := hle name
    simp only [Instr.weight, if_pos] at hone
    rw [count_decrementPodCount hone, Scorer.live, requestCache_decrementPodCount, hnil]
    simp only [Instr.weight, Scorer.live]
    omega

end Balance

/-! ## Runs -/

section Runs

variable {requestTimeout : Int} {s s' : State Scorer Instr} {todo : List Instr} {x : Scorer}

theorem start_cases {x' : Scorer} {b : Start} (hb : x.start b = some (x', todo)) :
    (x' = x ∧ ∀ e, callWeight (Instr.weight e) todo = 0) ∨
    (∃ requestID item, x.find requestID = some item ∧ x' = x.delete requestID ∧ todo = release item) := by
  cases b with
  | preRequest requestID result =>
    cases hb
    exact .inl ⟨rfl, fun _ => rfl⟩
  | responseBody requestID endOfStream hasTarget =>
    cases hb
    refine .inl ⟨rfl, fun _ => ?_⟩
    split
    · rfl
    · split <;> rfl
  | expire requestID now =>
    simp only [Scorer.start] at hb
    split at hb
    · rename_i item hfind
      split at hb
      · cases hb
        exact .inr ⟨requestID, item, hfind, rfl, rfl⟩
      · cases hb
    · cases hb

theorem positive_of_reaches {ok : State Scorer Instr → Label Start Int → Prop}
    (h : Reaches (step (machine requestTimeout)) ok init s) : s.shared.Positive := by
  refine h.invariant (fun s => s.shared.Positive) (fun e n hn => ?_) fun s l s' hp _ hstep => ?_
  · cases hn
  · rcases step_cases hstep with ⟨b, x, todo, rfl, hb, rfl⟩ | ⟨k, now, i, todo, x, more, rfl, hk, hx, rfl⟩
    · rcases start_cases hb with ⟨rfl, -⟩ | ⟨_, _, -, rfl, -⟩
      · exact hp
      · exact hp
    · exact exec_positive hp hx

/-- What a count has above what the entries of the cache and the calls in flight make it. -/
def surplus (s : State Scorer Instr) (e : String) : Int :=
  s.shared.count e - s.shared.live e - total (Instr.weight e) s

/-- No count falls behind. -/
structure Covers (s : State Scorer Instr) : Prop where
  keyed : s.shared.Keyed
  covers : ∀ e, 0 ≤ surplus s e

theorem covers_init : Covers init := ⟨List.nodup_nil, fun _ => le_rfl⟩

theorem live_nonneg (x : Scorer) (e : String) : 0 ≤ x.live e := by
  refine List.sum_nonneg fun v hv => ?_
  obtain ⟨item, -, rfl⟩ := List.mem_map.mp hv
  exact Int.natCast_nonneg _

theorem live_set_le {x : Scorer} (hk : x.Keyed) (item : Item) (e : String) :
    (x.set item).live e ≤ x.live e + item.value.podNames.count e := by
  cases hf : x.find item.key with
  | none => exact (live_set hf).le
  | some old =>
    have hset : (x.set item).live e = item.value.podNames.count e + (x.delete item.key).live e := rfl
    rw [hset, live_delete hk hf]
    omega

theorem Covers.start (h : Covers s) {b : Start} (hb : s.shared.start b = some (x, todo)) :
    x.Keyed ∧ ∀ e, surplus { shared := x, calls := s.calls ++ [todo] } e = surplus s e := by
  rcases start_cases hb with ⟨rfl, hw⟩ | ⟨requestID, item, hfind, rfl, rfl⟩
  · refine ⟨h.keyed, fun e => ?_⟩
    rw [surplus, total_start, hw e, Int.add_zero, surplus]
  · refine ⟨h.keyed.delete, fun e => ?_⟩
    have hcount : (s.shared.delete requestID).count e = s.shared.count e := rfl
    rw [surplus, surplus, total_start, callWeight_release]
    dsimp only
    rw [live_delete h.keyed hfind, hcount]
    omega

theorem Covers.exec (h : Covers s) {k : Nat} {now : Int} {i : Instr} {more : List Instr}
    (hk : s.calls[k]? = some (i :: todo)) (hx : s.shared.exec requestTimeout i now = some (x, more)) :
    Covers { shared := x, calls := s.calls.set k (more ++ todo) } ∧ (fresh s (.run k now) = true →
      ∀ e, surplus { shared := x, calls := s.calls.set k (more ++ todo) } e = surplus s e) := by
  have hle : ∀ e, i.weight e ≤ s.shared.count e := by
    intro e
    have hpending := (Interleave.Pending.of_getElem? hk).le_total (weight_nonneg e)
    have := live_nonneg s.shared e
    have := h.covers e
    rw [surplus] at this
    omega
  have hsame : (∀ requestID names, i = .set requestID names → s.shared.find requestID = none) →
      ∀ e, surplus { shared := x, calls := s.calls.set k (more ++ todo) } e = surplus s e := fun hset e => by
    have := exec_balance h.keyed hle hset hx e
    rw [surplus, surplus, total_run hk]
    dsimp only
    omega
  refine ⟨⟨exec_keyed h.keyed hx, fun e => ?_⟩, fun hf => hsame ?_⟩
  · by_cases hset : ∀ requestID names, i = .set requestID names → s.shared.find requestID = none
    · exact hsame hset e ▸ h.covers e
    · push Not at hset
      obtain ⟨requestID, names, rfl, -⟩ := hset
      cases hx
      -- what the entry written over has counted stays counted
      have hlive := live_set_le h.keyed ⟨requestID, ⟨names, requestID⟩, now + requestTimeout⟩ e
      have hcount : ∀ item, (s.shared.set item).count e = s.shared.count e := fun _ => rfl
      have hnil : callWeight (Instr.weight e) [] = 0 := rfl
      have hbefore := h.covers e
      rw [surplus] at hbefore ⊢
      rw [total_run hk, hcount, hnil]
      simp only [Instr.weight] at hlive ⊢
      omega
  · rintro requestID names rfl
    simp only [fresh, hk] at hf
    exact Option.isNone_iff_eq_none.mp hf

theorem Covers.step (h : Covers s) {l : Label Start Int} (hs : step (machine requestTimeout) s l = some s') :
    Covers s' ∧ (fresh s l = true → ∀ e, surplus s' e = surplus s e) := by
  rcases step_cases hs with ⟨b, x, todo, rfl, hb, rfl⟩ | ⟨k, now, i, todo, x, more, rfl, hk, hx, rfl⟩
  · obtain ⟨hkeyed, hsame⟩ := h.start hb
    exact ⟨⟨hkeyed, fun e => hsame e ▸ h.covers e⟩, fun _ => hsame⟩
  · exact h.exec hk hx

/-- **The counts match the cache, as long as no entry is written over.** In a
run whose steps meet the condition, with no call in flight, the count of every
endpoint is the number of times the entries of the cache list it; and no count
is negative in any state. -/
theorem counts_match_cache
    (h : Reaches (step (machine requestTimeout)) (fun s l => fresh s l = true) init s) :
    (quiescent s = true → ∀ e, s.shared.count e = s.shared.live e) ∧ ∀ e, 0 ≤ s.shared.count e := by
  have hinv : Covers s ∧ ∀ e, surplus s e = 0 := by
    refine h.invariant (fun s => Covers s ∧ ∀ e, surplus s e = 0) ⟨covers_init, fun _ => rfl⟩ ?_
    intro s l s' hi hok hstep
    obtain ⟨hcovers, hsame⟩ := hi.1.step hstep
    exact ⟨hcovers, fun e => (hsame hok e).trans (hi.2 e)⟩
  refine ⟨fun hq e => ?_, (positive_of_reaches h).count_nonneg⟩
  have hzero := hinv.2 e
  rw [surplus, Interleave.total_of_quiescent hq] at hzero
  omega

/-- **The counts never fall behind**, also when IDs are used again: in every state
of every run the count of an endpoint is at least what the entries of the cache and
the calls in flight have counted for it. -/
theorem counts_cover_cache (h : Reaches (step (machine requestTimeout)) Any init s) (e : String) :
    s.shared.live e + total (Instr.weight e) s ≤ s.shared.count e := by
  have hcovers := (h.invariant Covers covers_init fun _ _ _ hs _ hstep => (hs.step hstep).1).covers e
  rw [surplus] at hcovers
  omega

end Runs

/-- One profile with one endpoint. -/
def sampleResult : SchedulingResult :=
  { profileResults := [("default", some [some ⟨some ⟨⟨"default", "pod-0"⟩⟩, 0⟩])], primaryProfileName := "default" }

/-- A `PreRequest` from start to end, as the call at a place. -/
def dispatch (requestID : String) (k : Nat) : List (Label Start Int) :=
  [.start (.preRequest requestID sampleResult), .run k 0, .run k 0, .run k 0]

/-- A request ID is used again while its first request runs, and the second one ends. -/
def reused : List (Label Start Int) :=
  dispatch "a" 0 ++ dispatch "a" 1 ++ [.start (.responseBody "a" true true), .run 2 0, .run 2 0]

/-- **What an entry counts stays when the entry is written over.** A request is
dispatched twice under one ID and ends once: nothing is in the cache, and its
endpoint still has one request. -/
theorem overwritten_entry_leaks :
    ∃ s, Reaches (step (machine 120)) Any init s ∧ quiescent s = true ∧
      s.shared.count "default/pod-0" = 1 ∧ s.shared.live "default/pod-0" = 0 :=
  exists_of_run (step (machine 120)) init reused _ (by decide +kernel)

/-- The first request has expired when its ID is used again. -/
theorem counts_match_cache_after_expiry :
    ∃ s, Reaches (step (machine 120)) (fun s l => fresh s l = true) init s ∧
      quiescent s = true ∧ s.shared.live "default/pod-0" = 1 ∧ s.shared.count "default/pod-0" = 1 := by
  obtain ⟨s, hs, hp⟩ := exists_of_runIf (step (machine 120)) (fun s l => fresh s l = true) init
    (dispatch "a" 0 ++ [.start (.expire "a" 121), .run 1 121] ++ dispatch "a" 2)
    (fun s => quiescent s ∧ s.shared.live "default/pod-0" = 1) (by decide +kernel)
  exact ⟨s, hs, hp.1, hp.2, ((counts_match_cache hs).1 hp.1 _).trans hp.2⟩

theorem counts_cover_cache_reused :
    ∃ s, Reaches (step (machine 120)) Any init s ∧ quiescent s = true ∧
      s.shared.live "default/pod-0" + total (Instr.weight "default/pod-0") s ≤
        s.shared.count "default/pod-0" := by
  obtain ⟨s, hs, hp⟩ := exists_of_run (step (machine 120)) init reused (quiescent ·) (by decide +kernel)
  exact ⟨s, hs, hp, counts_cover_cache hs _⟩

end InferenceScheduler.ActiveRequest
