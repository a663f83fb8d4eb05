/-
The choice of a target model by weight (`Director.selectWeightedModel`). The sum
of the weights is an `int32`; so is the running sum that the random number is
compared with.
-/
import Mathlib.Order.Interval.Finset.Nat
import Mathlib.Algebra.Order.BigOperators.Group.List
import Mathlib.Tactic.Linarith

namespace InferenceScheduler.WeightedModel

/-- `v1alpha2.TargetModel`. -/
structure TargetModel where
  weight : BitVec 32
  modelRewrite : String
  deriving DecidableEq, Repr

/-- The first loop. -/
def totalWeight (models : List TargetModel) : BitVec 32 :=
  models.foldl (fun total m => total + m.weight) 0

/-- The second loop: the index it returns at, if it does. -/
def pick (randomNum : Nat) : BitVec 32 → List TargetModel → Option Nat
  | _, [] => none
  | currentWeight, m :: models =>
    if (randomNum : Int) < (currentWeight + m.weight).toInt then some 0
    else (pick randomNum (currentWeight + m.weight) models).map (· + 1)

/-- What `rand.Intn` is called with. -/
def intnArg (models : List TargetModel) : Int :=
  if totalWeight models = 0 then models.length else (totalWeight models).toInt

/-- `selectWeightedModel`, given what `rand.Intn` returns; none if it panics. -/
def selectWeightedModel (models : List TargetModel) (randomNum : Nat) : Option String :=
  if models = [] then some ""
  else if intnArg models ≤ 0 then none
  else if totalWeight models = 0 then models[randomNum]?.map (·.modelRewrite)
  else
    match pick randomNum 0 models with
    | some i => models[i]?.map (·.modelRewrite)
    | none => models.getLast?.map (·.modelRewrite)

/-- The sum of the weights, without a bound. -/
def weights (models : List TargetModel) : Int := (models.map (·.weight.toInt)).sum

@[simp] theorem weights_nil : weights [] = 0 := rfl

@[simp] theorem weights_cons (m : TargetModel) (models : List TargetModel) :
    weights (m :: models) = m.weight.toInt + weights models := List.sum_cons

section
variable {models : List TargetModel}

theorem weights_nonneg (hw : ∀ m ∈ models, 0 ≤ m.weight.toInt) : 0 ≤ weights models :=
  List.sum_nonneg (by simpa using hw)

/-- A sum that stays below the bound is exact. -/
theorem toInt_add_weight {a b : BitVec 32} (ha : 0 ≤ a.toInt) (hb : 0 ≤ b.toInt)
    (h : a.toInt + b.toInt < 2 ^ 31) : (a + b).toInt = a.toInt + b.toInt := by
  rw [BitVec.toInt_add]
  apply Int.bmod_eq_of_le <;> omega

theorem toInt_foldl (total : BitVec 32) (hw : ∀ m ∈ models, 0 ≤ m.weight.toInt) (ht : 0 ≤ total.toInt)
    (hlt : total.toInt + weights models < 2 ^ 31) :
    (models.foldl (fun total m => total + m.weight) total).toInt = total.toInt + weights models := by
  induction models generalizing total with
  | nil => simp
  | cons m models ih =>
    rw [weights_cons] at hlt ⊢
    have hm := hw m List.mem_cons_self
    have hws : ∀ m ∈ models, 0 ≤ m.weight.toInt := fun m h => hw m (List.mem_cons_of_mem _ h)
    have hrest := weights_nonneg hws
    have hadd := toInt_add_weight ht hm (by omega)
    rw [List.foldl_cons, ih _ hws (by omega) (by omega), hadd]
    omega

/-- Target `i` has the draws from the weights before it up to those with it. -/
theorem pick_eq_some (r : Nat) (current : BitVec 32) (hw : ∀ m ∈ models, 0 ≤ m.weight.toInt)
    (hc : 0 ≤ current.toInt) (hlt : current.toInt + weights models < 2 ^ 31) (hr : current.toInt ≤ r) (i : Nat) :
    pick r current models = some i ↔ i < models.length ∧
      current.toInt + weights (models.take i) ≤ r ∧ r < current.toInt + weights (models.take (i + 1)) := by
  induction models generalizing current i with
  | nil => simp [pick]
  | cons m models ih =>
    rw [weights_cons] at hlt
    have hm := hw m List.mem_cons_self
    have hws : ∀ m ∈ models, 0 ≤ m.weight.toInt := fun m h => hw m (List.mem_cons_of_mem _ h)
    have hrest := weights_nonneg hws
    have hadd := toInt_add_weight hc hm (by omega)
    rw [pick, hadd]
    split_ifs with hlt'
    · cases i with
      | zero => simp [hr, hlt']
      | succ i =>
        -- the draw is below the first target's end, and so below every later start
        have htake := weights_nonneg (fun m h => hws m (List.mem_of_mem_take (i := i) h))
        simp only [Option.some.injEq, List.take_succ_cons, weights_cons, List.length_cons]
        omega
    · cases i with
      | zero => simp [hlt']
      | succ i =>
        have hih := ih (current + m.weight) hws (by omega) (by omega) (by omega) i
        simp only [Option.map_eq_some_iff, Nat.add_right_cancel_iff, exists_eq_right, hih, hadd,
          List.take_succ_cons, weights_cons, List.length_cons]
        omega

theorem weights_take_succ {i : Nat} (hi : i < models.length) :
    weights (models.take (i + 1)) = weights (models.take i) + models[i].weight.toInt := by
  rw [weights, weights, List.take_succ_eq_append_getElem hi, List.map_append, List.sum_append]
  simp

theorem weights_take_le (hw : ∀ m ∈ models, 0 ≤ m.weight.toInt) (i : Nat) :
    weights (models.take i) ≤ weights models := by
  have hdrop := weights_nonneg (fun m h => hw m (List.mem_of_mem_drop (i := i) h))
  have hsplit : weights models = weights (models.take i) + weights (models.drop i) := by
    rw [weights, weights, weights, ← List.sum_append, ← List.map_append, List.take_append_drop]
  omega

/-- Below the sum of the weights some target's interval has the draw. -/
theorem exists_interval {r : Nat} (hr : r < weights models) : ∃ i < models.length,
    weights (models.take i) ≤ r ∧ r < weights (models.take (i + 1)) := by
  have hex : ∃ n, r < weights (models.take n) := ⟨models.length, by rwa [List.take_length]⟩
  cases hfind : Nat.find hex with
  | zero =>
    have hspec := Nat.find_spec hex
    simp only [hfind, List.take_zero, weights_nil] at hspec
    omega
  | succ i =>
    have hbelow : weights (models.take i) ≤ r := not_lt.mp (Nat.find_min hex (by omega))
    have hlen : i < models.length := by
      by_contra hge
      rw [List.take_of_length_le (not_lt.mp hge)] at hbelow
      omega
    exact ⟨i, hlen, hbelow, hfind ▸ Nat.find_spec hex⟩

end

/-- **The choice follows the weights.** `rand.Intn` is called with the sum of the
weights. Of the numbers it may return exactly as many choose a target as the
target's weight says, so that none chooses a target of weight zero; the loop
returns on each of them, and what is returned is the chosen target's model. -/
theorem choices_follow_weights (models : List TargetModel) (hne : models ≠ [])
    (hw : ∀ m ∈ models, 0 ≤ m.weight.toInt) (hpos : 0 < weights models) (hlt : weights models < 2 ^ 31) :
    intnArg models = weights models ∧
      (∀ (i : Nat) (hi : i < models.length),
        (((Finset.range (intnArg models).toNat).filter fun r => pick r 0 models = some i).card : Int) =
          models[i].weight.toInt) ∧
      ∀ r : Nat, r < intnArg models → ∃ (i : Nat) (hi : i < models.length), pick r 0 models = some i ∧
        0 < models[i].weight.toInt ∧ selectWeightedModel models r = some models[i].modelRewrite := by
  have htotal : (totalWeight models).toInt = weights models := by
    have := toInt_foldl 0 hw (by simp) (by simpa using hlt)
    simpa [totalWeight] using this
  have hne0 : totalWeight models ≠ 0 := by
    intro h
    rw [h] at htotal
    simp only [BitVec.ofNat_eq_ofNat, BitVec.toInt_zero] at htotal
    omega
  have harg : intnArg models = weights models := by rw [intnArg, if_neg hne0, htotal]
  have hpick : ∀ r i : Nat, pick r 0 models = some i ↔ i < models.length ∧
      weights (models.take i) ≤ r ∧ r < weights (models.take (i + 1)) := by
    intro r i
    have := pick_eq_some r 0 hw (by simp) (by simpa using hlt) (by simp) i
    simpa using this
  refine ⟨harg, ?_, ?_⟩
  · intro i hi
    have hstart := weights_nonneg (fun m h => hw m (List.mem_of_mem_take (i := i) h))
    have hstep := weights_take_succ hi
    have hend := weights_take_le hw (i + 1)
    have hmi := hw _ (List.getElem_mem hi)
    have hset : (Finset.range (intnArg models).toNat).filter (fun r => pick r 0 models = some i) =
        Finset.Ico (weights (models.take i)).toNat (weights (models.take (i + 1))).toNat := by
      ext r
      rw [Finset.mem_filter, Finset.mem_range, Finset.mem_Ico, hpick, harg]
      omega
    rw [hset, Nat.card_Ico]
    omega
  · intro r hr
    rw [harg] at hr
    obtain ⟨i, hlen, hge, hlt'⟩ := exists_interval hr
    have hi := (hpick r i).mpr ⟨hlen, hge, hlt'⟩
    have hstep := weights_take_succ hlen
    refine ⟨i, hlen, hi, by omega, ?_⟩
    rw [selectWeightedModel, if_neg hne, if_neg (by omega), if_neg hne0, hi]
    simp [hlen]

/-- Weights 1, 0 and 2. -/
theorem choices_follow_weights_three :
    intnArg [⟨1, "a"⟩, ⟨0, "b"⟩, ⟨2, "c"⟩] = weights [⟨1, "a"⟩, ⟨0, "b"⟩, ⟨2, "c"⟩] :=
  (choices_follow_weights [⟨1, "a"⟩, ⟨0, "b"⟩, ⟨2, "c"⟩] (by decide) (by decide) (by decide) (by decide)).1

end InferenceScheduler.WeightedModel
