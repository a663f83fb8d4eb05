/-
The scores of the precise prefix cache scorer
(`indexedScoresToNormalizedScoredPods`, `getMinMax`), over exact rationals. An
endpoint that the map of raw scores does not have gets 0, and so does one with
the least entry, unless all entries are equal (`hit_scores_like_miss`).
-/
import Mathlib.Tactic.Linarith
import Mathlib.Tactic.Positivity

namespace InferenceScheduler.PrefixScores

/-- `map[string]float64`; the order of the entries is that of an iteration. -/
abbrev Scores := List (String × ℚ)

/-- `scores[key]`. -/
def Scores.get (scores : Scores) (key : String) : Option ℚ :=
  (scores.find? (·.1 = key)).map (·.2)

/-- `math.MaxFloat64`. -/
def maxFloat64 : ℚ := (2 ^ 53 - 1) * 2 ^ 971

/-- `getMinMax`; the bottom element is negative infinity. -/
def getMinMax (scores : Scores) : ℚ × WithBot ℚ :=
  scores.foldl
    (fun acc e => (if e.2 < acc.1 then e.2 else acc.1, if acc.2 < (e.2 : WithBot ℚ) then (e.2 : WithBot ℚ) else acc.2))
    (maxFloat64, ⊥)

variable {E : Type} (endpointToKey : E → Option String) (scores : Scores)

/-- What one round of the loop stores for the endpoint with this key. -/
def normalized (key : String) : ℚ :=
  match scores.get key, (getMinMax scores).2 with
  | some score, some maxScore =>
    let minScore := (getMinMax scores).1
    if minScore = maxScore then 1 else (score - minScore) / (maxScore - minScore)
  | _, _ => 0

def indexedScoresToNormalizedScoredPods (endpoints : List E) : List (E × ℚ) :=
  endpoints.filterMap fun endpoint => (endpointToKey endpoint).map fun key => (endpoint, normalized scores key)

/-- The raw score; a key that is absent counts as 0. -/
def raw (key : String) : ℚ := (scores.get key).getD 0

variable {scores}

/-! ## The least and the greatest entry -/

/-- `lo` and `hi` are entries, and bound all of them. -/
structure Extremes (scores : Scores) (lo hi : ℚ) : Prop where
  lo_mem : lo ∈ scores.map (·.2)
  hi_mem : hi ∈ scores.map (·.2)
  bounds : ∀ v ∈ scores.map (·.2), lo ≤ v ∧ v ≤ hi

theorem Extremes.le {lo hi : ℚ} (h : Extremes scores lo hi) : lo ≤ hi := (h.bounds lo h.lo_mem).2

theorem getMinMax_append (scores : Scores) (e : String × ℚ) :
    getMinMax (scores ++ [e]) =
      (if e.2 < (getMinMax scores).1 then e.2 else (getMinMax scores).1,
        if (getMinMax scores).2 < (e.2 : WithBot ℚ) then (e.2 : WithBot ℚ) else (getMinMax scores).2) := by
  rw [getMinMax, List.foldl_append]
  rfl

/-- A map with entries has its extremes found. -/
theorem getMinMax_spec (scores : Scores) (hle : ∀ e ∈ scores, e.2 ≤ maxFloat64) (hne : scores ≠ []) :
    ∃ lo hi : ℚ, getMinMax scores = (lo, (hi : WithBot ℚ)) ∧ Extremes scores lo hi := by
  induction scores using List.reverseRecOn with
  | nil => exact absurd rfl hne
  | append_singleton scores e ih =>
    have he : e.2 ≤ maxFloat64 := hle e (by simp)
    rw [getMinMax_append]
    by_cases hnil : scores = []
    · -- the first entry: the initial values give way
      subst hnil
      refine ⟨e.2, e.2, ?_, ⟨by simp, by simp, by simp⟩⟩
      show (if e.2 < maxFloat64 then e.2 else maxFloat64, if (⊥ : WithBot ℚ) < e.2 then (e.2 : WithBot ℚ) else ⊥) = _
      rw [if_pos (WithBot.bot_lt_coe _)]
      split_ifs with h
      · rfl
      · rw [le_antisymm he (not_lt.mp h)]
    · obtain ⟨lo, hi, heq, hx⟩ := ih (fun d hd => hle d (by simp [hd])) hnil
      rw [heq]
      have hlohi := hx.le
      have hmem : ∀ v ∈ (scores ++ [e]).map (·.2), v ∈ scores.map (·.2) ∨ v = e.2 := by simp
      refine ⟨if e.2 < lo then e.2 else lo, if hi < e.2 then e.2 else hi, ?_, ⟨?_, ?_, ?_⟩⟩
      · simp only [WithBot.coe_lt_coe]
        split_ifs <;> rfl
      · split_ifs
        · simp
        · rw [List.map_append]
          exact List.mem_append_left _ hx.lo_mem
      · split_ifs
        · simp
        · rw [List.map_append]
          exact List.mem_append_left _ hx.hi_mem
      · intro v hv
        rcases hmem v hv with hv | rfl
        · have := hx.bounds v hv
          constructor <;> split_ifs <;> linarith
        · constructor <;> split_ifs <;> linarith

theorem mem_of_get {key : String} {v : ℚ} (h : scores.get key = some v) : (key, v) ∈ scores := by
  obtain ⟨e, he, rfl⟩ := Option.map_eq_some_iff.mp h
  have hkey : e.1 = key := by simpa using List.find?_some he
  rw [← hkey]
  exact List.mem_of_find?_eq_some he

theorem normalized_of_absent {key : String} (h : scores.get key = none) : normalized scores key = 0 := by
  rw [normalized, h]

/-! ## The scores -/

/-- No candidate without a hit stands beside one whose entry is the least of the
map, unless the entries are all equal. -/
def MissesApart (scores : Scores) (endpoints : List E) : Prop :=
  ∀ a ∈ endpoints, ∀ b ∈ endpoints, ∀ ka kb v, endpointToKey a = some ka → endpointToKey b = some kb →
    scores.get ka = none → scores.get kb = some v →
    (∃ w ∈ scores.map (·.2), w < v) ∨ ∀ w ∈ scores.map (·.2), w = v

theorem mem_indexed {endpoints : List E} {p : E × ℚ} :
    p ∈ indexedScoresToNormalizedScoredPods endpointToKey scores endpoints ↔
      p.1 ∈ endpoints ∧ ∃ key, endpointToKey p.1 = some key ∧ p.2 = normalized scores key := by
  rw [indexedScoresToNormalizedScoredPods, List.mem_filterMap]
  constructor
  · rintro ⟨e, he, heq⟩
    obtain ⟨key, hkey, rfl⟩ := Option.map_eq_some_iff.mp heq
    exact ⟨he, key, hkey, rfl⟩
  · rintro ⟨he, key, hkey, heq⟩
    refine ⟨p.1, he, ?_⟩
    rw [hkey, Option.map_some, ← heq]

section

variable (hle : ∀ e ∈ scores, e.2 ≤ maxFloat64)
include hle

/-- An entry's normalised score, in terms of the extremes. -/
theorem normalized_of_present {key : String} {v : ℚ} (h : scores.get key = some v) :
    ∃ lo hi : ℚ, Extremes scores lo hi ∧ lo ≤ v ∧ v ≤ hi ∧ (∀ k w, scores.get k = some w →
      normalized scores k = if lo = hi then 1 else (w - lo) / (hi - lo)) := by
  have hmem := mem_of_get h
  obtain ⟨lo, hi, heq, hx⟩ := getMinMax_spec scores hle (List.ne_nil_of_mem hmem)
  have hb := hx.bounds v (List.mem_map_of_mem (f := (·.2)) hmem)
  refine ⟨lo, hi, hx, hb.1, hb.2, fun k w hk => ?_⟩
  rw [normalized, hk, heq]

theorem normalized_mem_unit (key : String) :
    0 ≤ normalized scores key ∧ normalized scores key ≤ 1 := by
  cases h : scores.get key with
  | none => rw [normalized_of_absent h]; norm_num
  | some v =>
    obtain ⟨lo, hi, hx, hlo, hhi, hscore⟩ := normalized_of_present hle h
    rw [hscore key v h]
    split_ifs with heq
    · norm_num
    · have hlt : lo < hi := lt_of_le_of_ne hx.le heq
      constructor
      · exact div_nonneg (by linarith) (by linarith)
      · rw [div_le_one (by linarith)]
        linarith

/-- Of two entries the larger one scores higher. -/
theorem normalized_lt_of_present {ka kb : String} {w v : ℚ}
    (ha : scores.get ka = some w) (hb : scores.get kb = some v) (hlt : w < v) :
    normalized scores ka < normalized scores kb := by
  obtain ⟨lo, hi, hx, -, hhi, hscore⟩ := normalized_of_present hle hb
  have hlo := (hx.bounds w (List.mem_map_of_mem (f := (·.2)) (mem_of_get ha))).1
  have hne : lo ≠ hi := by
    intro heq
    linarith
  rw [hscore ka w ha, hscore kb v hb, if_neg hne, if_neg hne]
  exact div_lt_div_of_pos_right (by linarith) (by linarith)

/-- An entry scores above nothing just if it is not the least, or there is no
other value. -/
theorem normalized_pos_iff {key : String} {v : ℚ} (h : scores.get key = some v) :
    0 < normalized scores key ↔ (∃ w ∈ scores.map (·.2), w < v) ∨ ∀ w ∈ scores.map (·.2), w = v := by
  obtain ⟨lo, hi, hx, hlo, hhi, hscore⟩ := normalized_of_present hle h
  rw [hscore key v h]
  by_cases heq : lo = hi
  · have hall : ∀ w ∈ scores.map (·.2), w = v := by
      intro w hw
      have := hx.bounds w hw
      linarith
    rw [if_pos heq]
    exact ⟨fun _ => .inr hall, fun _ => one_pos⟩
  · have hlt : lo < hi := lt_of_le_of_ne hx.le heq
    rw [if_neg heq, div_pos_iff_of_pos_right (by linarith)]
    constructor
    · intro hpos
      exact .inl ⟨lo, hx.lo_mem, by linarith⟩
    · rintro (⟨w, hw, hwv⟩ | hall)
      · have := (hx.bounds w hw).1
        linarith
      · have h₁ := hall lo hx.lo_mem
        have h₂ := hall hi hx.hi_mem
        exact absurd (h₁.trans h₂.symm) heq

end

/-- **When the scores keep the order of the hits.** The scores lie between 0 and
1. A candidate with a larger raw score, an absent one counting as 0, has a
strictly larger score just if no candidate without a hit stands beside one with
the least entry, or all entries are equal. -/
theorem hits_ordered_iff (scores : Scores) (hraw : ∀ e ∈ scores, 0 < e.2 ∧ e.2 ≤ maxFloat64) (endpoints : List E) :
    (∀ p ∈ indexedScoresToNormalizedScoredPods endpointToKey scores endpoints, 0 ≤ p.2 ∧ p.2 ≤ 1) ∧
      ((∀ p ∈ indexedScoresToNormalizedScoredPods endpointToKey scores endpoints,
        ∀ q ∈ indexedScoresToNormalizedScoredPods endpointToKey scores endpoints,
        ∀ ka kb, endpointToKey p.1 = some ka → endpointToKey q.1 = some kb →
          raw scores ka < raw scores kb → p.2 < q.2) ↔
        MissesApart endpointToKey scores endpoints) := by
  have hle : ∀ e ∈ scores, e.2 ≤ maxFloat64 := fun e he => (hraw e he).2
  have hpos : ∀ {k v}, scores.get k = some v → 0 < v := fun h => (hraw _ (mem_of_get h)).1
  refine ⟨?_, ?_, ?_⟩
  · intro p hp
    obtain ⟨-, key, -, heq⟩ := (mem_indexed endpointToKey).mp hp
    rw [heq]
    exact normalized_mem_unit hle key
  · intro hstrict a ha b hb ka kb v hka hkb hmiss hhit
    have hlt : raw scores ka < raw scores kb := by
      rw [raw, raw, hmiss, hhit]
      exact hpos hhit
    have := hstrict (a, normalized scores ka) ((mem_indexed endpointToKey).mpr ⟨ha, ka, hka, rfl⟩)
      (b, normalized scores kb) ((mem_indexed endpointToKey).mpr ⟨hb, kb, hkb, rfl⟩) ka kb hka hkb hlt
    rw [normalized_of_absent hmiss] at this
    exact (normalized_pos_iff hle hhit).mp this
  · intro hapart p hp q hq ka kb hka hkb hlt
    obtain ⟨hpe, ka', hka', hps⟩ := (mem_indexed endpointToKey).mp hp
    obtain ⟨hqe, kb', hkb', hqs⟩ := (mem_indexed endpointToKey).mp hq
    obtain rfl : ka' = ka := Option.some.inj (hka'.symm.trans hka)
    obtain rfl : kb' = kb := Option.some.inj (hkb'.symm.trans hkb)
    rw [hps, hqs]
    cases hb : scores.get kb' with
    | none =>
      -- nothing is below an absent entry
      rw [raw, raw, hb] at hlt
      cases ha : scores.get ka' with
      | none => simp [ha] at hlt
      | some w =>
        have := hpos ha
        simp only [ha, Option.getD_some, Option.getD_none] at hlt
        linarith
    | some v =>
      cases ha : scores.get ka' with
      | none =>
        rw [normalized_of_absent ha]
        exact (normalized_pos_iff hle hb).mpr (hapart p.1 hpe q.1 hqe ka' kb' v hka hkb ha hb)
      | some w =>
        rw [raw, raw, ha, hb] at hlt
        exact normalized_lt_of_present hle ha hb hlt

/-- Two hits of different length, both candidates: the longer one scores higher. -/
theorem hits_ordered_iff_two :
    (∀ p ∈ indexedScoresToNormalizedScoredPods Option.some [("a", 1), ("b", 2)] ["a", "b"], 0 ≤ p.2 ∧ p.2 ≤ 1) ∧
      ∀ p ∈ indexedScoresToNormalizedScoredPods Option.some [("a", 1), ("b", 2)] ["a", "b"],
        ∀ q ∈ indexedScoresToNormalizedScoredPods Option.some [("a", 1), ("b", 2)] ["a", "b"],
        ∀ ka kb, Option.some p.1 = some ka → Option.some q.1 = some kb →
          raw [("a", 1), ("b", 2)] ka < raw [("a", 1), ("b", 2)] kb → p.2 < q.2 := by
  obtain ⟨hunit, hordered⟩ :=
    hits_ordered_iff Option.some [("a", 1), ("b", 2)] (by decide +kernel) ["a", "b"]
  refine ⟨hunit, hordered.mpr ?_⟩
  -- both candidates have an entry
  intro a ha _ _ ka _ _ hka _ hmiss
  cases hka
  rcases List.mem_pair.mp ha with rfl | rfl <;> cases hmiss

/-- The shorter of two hits scores like no hit at all. -/
theorem hit_scores_like_miss :
    raw [("a", 1), ("b", 2)] "c" < raw [("a", 1), ("b", 2)] "a" ∧
      indexedScoresToNormalizedScoredPods Option.some [("a", 1), ("b", 2)] ["a", "b", "c"] =
        [("a", 0), ("b", 1), ("c", 0)] := by
  decide +kernel

end InferenceScheduler.PrefixScores
