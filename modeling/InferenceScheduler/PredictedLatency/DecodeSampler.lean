/-
The sampler that chooses the decode tokens of a response for which a latency is
predicted (`requestcontrol/dataproducer/predictedlatency`,
`decode_token_sampler.go`, `requestcontrol_hooks.go`). The next sampled token is
drawn an interval ahead and compared with the token counter by equality, so an
interval of zero, or one that wraps the sum, puts it behind the counter for the
rest of the response.
-/
import InferenceScheduler.InFlight.Producer
import Mathlib.Algebra.Order.Ring.Rat

namespace InferenceScheduler.PredictedLatency

open InFlight (int64)

/-! ## The sampler -/

/-- The value of `p` after some rounds of the loop of `poissonNext`. -/
def product {F : Type} (mul : F → F → F) (p : F) (draws : Nat → F) (rng : Nat) : Nat → F
  | 0 => p
  | k + 1 => mul (product mul p draws rng k) (draws (rng + k))

/-- A sampler with its float operations and what its random source returns. Products
of numbers below one fall through the floats from 1 to `exp(-30)`, of which there
are fewer than 2^63, so the loop ends. -/
structure Sampling (F : Type) [LinearOrder F] where
  zero : F
  one : F
  thirty : F
  /-- `math.Exp(-lambda)`. -/
  exp : F → F
  mul : F → F → F
  /-- `int(math.Round(lambda + math.Sqrt(lambda)*normal))`; what a float out of
  range becomes depends on the machine. -/
  approximate : F → F → Int
  approximate_lt : ∀ lambda normal, approximate lambda normal < 2 ^ 63
  float64 : Nat → F
  normFloat64 : Nat → F
  samplingMean : F
  maxDecodeTokenSamplesForPrediction : Nat
  rounds : Nat
  rounds_le : rounds ≤ 2 ^ 63
  ends : samplingMean < thirty → ∀ rng, ∃ k ≤ rounds, product mul one float64 rng k ≤ exp samplingMean

structure DecodeTokenSampler where
  rng : Nat
  nextSampleToken : Int
  sampleCount : Nat
  deriving DecidableEq, Repr

/-- The sampler's part of the context, the number of tokens so far, and those
`Predict` was called for. -/
structure TokenCtx where
  generatedTokenCount : Nat
  decodeTokenSampler : DecodeTokenSampler
  predictions : List Nat
  deriving DecidableEq, Repr

namespace Sampling

variable {F : Type} [LinearOrder F] (S : Sampling F)

/-- `for p > l`: the number of rounds. -/
def knuth (l : F) : Nat → F → Nat → Nat → Nat
  | 0, _, k, _ => k
  | fuel + 1, p, k, rng => if l < p then knuth l fuel (S.mul p (S.float64 rng)) (k + 1) (rng + 1) else k

/-- The interval, and the calls to the random source so far. -/
def poissonNext (rng : Nat) : Int × Nat :=
  let lambda := S.samplingMean
  if lambda ≤ S.zero then (1, rng)
  else if lambda < S.thirty then
    let k := S.knuth (S.exp lambda) S.rounds S.one 0 rng
    (k - 1, rng + k)
  else
    let interval := S.approximate lambda (S.normFloat64 rng)
    (if interval < 1 then 1 else interval, rng + 1)

def newDecodeTokenSampler : DecodeTokenSampler :=
  { rng := (S.poissonNext 0).2, nextSampleToken := int64 (2 + (S.poissonNext 0).1), sampleCount := 0 }

def shouldPredict (ts : DecodeTokenSampler) (currentToken : Nat) : Bool :=
  currentToken = ts.nextSampleToken && ts.sampleCount < S.maxDecodeTokenSamplesForPrediction

def recordPrediction (ts : DecodeTokenSampler) (currentToken : Nat) : DecodeTokenSampler :=
  if S.maxDecodeTokenSamplesForPrediction ≤ ts.sampleCount then ts
  else
    let ts := { ts with sampleCount := ts.sampleCount + 1 }
    if ts.sampleCount < S.maxDecodeTokenSamplesForPrediction then
      { ts with rng := (S.poissonNext ts.rng).2, nextSampleToken := int64 (currentToken + (S.poissonNext ts.rng).1) }
    else ts

/-- After the first token. -/
def processFirstToken : TokenCtx :=
  { generatedTokenCount := 1, decodeTokenSampler := S.newDecodeTokenSampler, predictions := [] }

/-- `processTokenForLatencyPrediction`, when there are metrics. -/
def processToken (ctx : TokenCtx) : TokenCtx :=
  let token := ctx.generatedTokenCount + 1
  if S.shouldPredict ctx.decodeTokenSampler token then
    { generatedTokenCount := token, decodeTokenSampler := S.recordPrediction ctx.decodeTokenSampler token,
      predictions := ctx.predictions ++ [token] }
  else { ctx with generatedTokenCount := token }

/-- After the first token and `n` more. -/
def after : Nat → TokenCtx
  | 0 => S.processFirstToken
  | n + 1 => S.processToken (after n)

/-! ## Intervals -/

/-- The loop ends with the first product that is not above the bound. -/
theorem knuth_spec {l : F} {rng : Nat} (fuel j : Nat)
    (h : ∃ k, j ≤ k ∧ k ≤ j + fuel ∧ product S.mul S.one S.float64 rng k ≤ l) :
    S.knuth l fuel (product S.mul S.one S.float64 rng j) j (rng + j) ≤ j + fuel ∧
      product S.mul S.one S.float64 rng (S.knuth l fuel (product S.mul S.one S.float64 rng j) j (rng + j)) ≤ l ∧
      ∀ i, j ≤ i → i < S.knuth l fuel (product S.mul S.one S.float64 rng j) j (rng + j) →
        l < product S.mul S.one S.float64 rng i := by
  obtain ⟨k, hjk, hk, hp⟩ := h
  induction fuel generalizing j with
  | zero =>
    obtain rfl : k = j := by omega
    exact ⟨le_rfl, hp, fun i h₁ h₂ => by simp only [knuth] at h₂; omega⟩
  | succ fuel ih =>
    unfold knuth
    split
    · next hl =>
      have hne : k ≠ j := by
        rintro rfl
        exact not_le.mpr hl hp
      obtain ⟨hle, hend, hbefore⟩ := ih (j + 1) (by omega) (by omega)
      refine ⟨hle.trans (by omega), hend, fun i h₁ h₂ => ?_⟩
      rcases Nat.eq_or_lt_of_le h₁ with rfl | h₁
      · exact hl
      · exact hbefore i h₁ h₂
    · next hl => exact ⟨Nat.le_add_right _ _, not_lt.mp hl, fun i h₁ h₂ => by omega⟩

/-- **The draws at `rng` move the sampler on** from a token by at least `least`: for
a small mean the loop has at least one round more, and ends before the sum wraps;
for a large one the sum does not wrap. -/
def Moves (rng : Nat) (token : Int) (least : Nat) : Prop :=
  if S.samplingMean < S.thirty then
    (∀ j ≤ least, S.exp S.samplingMean < product S.mul S.one S.float64 rng j) ∧
      ∃ k : Nat, product S.mul S.one S.float64 rng k ≤ S.exp S.samplingMean ∧ token + k ≤ 2 ^ 63
  else token + max 1 (S.approximate S.samplingMean (S.normFloat64 rng)) < 2 ^ 63

variable {S}

theorem poissonNext_moves (hmean : S.zero < S.samplingMean) (rng : Nat) (token : Int) {least : Nat} (hleast : least ≤ 1) :
    (least ≤ (S.poissonNext rng).1 ∧ token + (S.poissonNext rng).1 < 2 ^ 63 ↔ S.Moves rng token least) ∧
      -1 ≤ (S.poissonNext rng).1 ∧ (S.poissonNext rng).1 < 2 ^ 63 := by
  unfold poissonNext Moves
  simp only [not_le.mpr hmean, if_false]
  by_cases h : S.samplingMean < S.thirty
  · obtain ⟨k, hk, hp⟩ := S.ends h rng
    obtain ⟨hle, hend, hbefore⟩ := S.knuth_spec S.rounds 0 ⟨k, Nat.zero_le k, by omega, hp⟩
    simp only [product, Nat.add_zero] at hle hend hbefore
    simp only [h, if_true]
    generalize S.knuth (S.exp S.samplingMean) S.rounds S.one 0 rng = r at hle hend hbefore ⊢
    have hrounds := S.rounds_le
    refine ⟨⟨fun ⟨h₁, h₂⟩ => ⟨fun j hj => hbefore j (Nat.zero_le j) (by omega), r, hend, by omega⟩, ?_⟩, by omega, by omega⟩
    rintro ⟨hlong, k, hk, hfits⟩
    have h₁ : least < r := by
      by_contra hr
      exact not_le.mpr (hlong r (not_lt.mp hr)) hend
    have h₂ : r ≤ k := by
      by_contra hr
      exact not_le.mpr (hbefore k (Nat.zero_le k) (not_le.mp hr)) hk
    omega
  · simp only [h, if_false]
    have := S.approximate_lt S.samplingMean (S.normFloat64 rng)
    split <;> omega

/-- The sum of a token and an interval lies ahead if it does not wrap. -/
theorem lt_int64_iff {token interval least : Int} (hpos : 1 ≤ token) (htoken : token < 2 ^ 63) (hleast : 0 ≤ least)
    (hinterval : -1 ≤ interval) (hlt : interval < 2 ^ 63) :
    token + least - 1 < int64 (token + interval) ↔ least ≤ interval ∧ token + interval < 2 ^ 63 := by
  unfold int64
  rw [Int.bmod_def]
  omega

theorem int64_lt (x : Int) : int64 x < 2 ^ 63 := Int.bmod_lt (by decide)

/-! ## Whole responses -/

/-- As long as predictions are left, the next sampled token lies ahead. -/
def Ahead (S : Sampling F) (ctx : TokenCtx) : Prop :=
  ctx.decodeTokenSampler.sampleCount < S.maxDecodeTokenSamplesForPrediction →
    (ctx.generatedTokenCount : Int) < ctx.decodeTokenSampler.nextSampleToken

/-- The draws of the first interval, and of every one drawn after a prediction, move
the sampler on. -/
def Advances (S : Sampling F) : Prop :=
  S.Moves 0 2 0 ∧ ∀ n, let ts := (S.after n).decodeTokenSampler
    S.shouldPredict ts ((S.after n).generatedTokenCount + 1) →
      ts.sampleCount + 1 < S.maxDecodeTokenSamplesForPrediction →
        S.Moves ts.rng ((S.after n).generatedTokenCount + 1) 1

theorem processToken_of_not {ctx : TokenCtx}
    (h : ¬ S.shouldPredict ctx.decodeTokenSampler (ctx.generatedTokenCount + 1)) :
    S.processToken ctx = { ctx with generatedTokenCount := ctx.generatedTokenCount + 1 } := by
  simp [processToken, h]

/-- **A sampled token** is predicted and counted, and if predictions are left the
next one is drawn. -/
theorem processToken_of_shouldPredict {ctx : TokenCtx}
    (h : S.shouldPredict ctx.decodeTokenSampler (ctx.generatedTokenCount + 1)) :
    (S.processToken ctx).generatedTokenCount = ctx.generatedTokenCount + 1 ∧
      (S.processToken ctx).decodeTokenSampler.sampleCount = ctx.decodeTokenSampler.sampleCount + 1 ∧
      (S.processToken ctx).predictions = ctx.predictions ++ [ctx.generatedTokenCount + 1] ∧
      (ctx.decodeTokenSampler.sampleCount + 1 < S.maxDecodeTokenSamplesForPrediction →
        (S.processToken ctx).decodeTokenSampler.nextSampleToken =
          int64 (ctx.generatedTokenCount + 1 + (S.poissonNext ctx.decodeTokenSampler.rng).1)) := by
  have hlt : ctx.decodeTokenSampler.sampleCount < S.maxDecodeTokenSamplesForPrediction := by
    simp only [shouldPredict, Bool.and_eq_true, decide_eq_true_eq] at h
    exact h.2
  simp only [processToken, h, if_true, recordPrediction, not_le.mpr hlt, if_false, true_and]
  refine ⟨?_, fun hleft => ?_⟩
  · split <;> rfl
  · simp [hleft]

theorem next_lt (n : Nat) : (S.after n).decodeTokenSampler.nextSampleToken < 2 ^ 63 := by
  induction n with
  | zero => exact int64_lt _
  | succ n ih =>
    simp only [after, processToken, recordPrediction]
    split
    · split
      · exact ih
      · split
        · exact int64_lt _
        · exact ih
    · exact ih

/-- The next token lies ahead after a prediction if its draws move the sampler on. -/
theorem ahead_succ_iff (hmean : S.zero < S.samplingMean) {n : Nat}
    (hp : S.shouldPredict (S.after n).decodeTokenSampler ((S.after n).generatedTokenCount + 1))
    (hleft : (S.after n).decodeTokenSampler.sampleCount + 1 < S.maxDecodeTokenSamplesForPrediction) :
    S.Ahead (S.after (n + 1)) ↔ S.Moves (S.after n).decodeTokenSampler.rng ((S.after n).generatedTokenCount + 1) 1 := by
  obtain ⟨hg, hc, -, hnext⟩ := processToken_of_shouldPredict hp
  have htoken : (((S.after n).generatedTokenCount + 1 : Nat) : Int) < 2 ^ 63 := by
    simp only [shouldPredict, Bool.and_eq_true, decide_eq_true_eq] at hp
    rw [hp.1]
    exact next_lt n
  obtain ⟨hmoves, hge, hlt⟩ := poissonNext_moves hmean (S.after n).decodeTokenSampler.rng
    ((S.after n).generatedTokenCount + 1) (le_refl 1)
  rw [← hmoves, ← lt_int64_iff (by omega) (by omega) (by omega) hge hlt, Ahead]
  simp only [after, hg, hc, hleft, hnext, forall_const]
  push_cast
  rw [Int.add_sub_cancel]

theorem ahead_zero_iff (hmean : S.zero < S.samplingMean) (hmax : 1 ≤ S.maxDecodeTokenSamplesForPrediction) :
    S.Ahead (S.after 0) ↔ S.Moves 0 2 0 := by
  obtain ⟨hmoves, hge, hlt⟩ := poissonNext_moves hmean 0 2 (Nat.zero_le 1)
  rw [← hmoves, ← lt_int64_iff (by omega) (by omega) (Int.natCast_nonneg 0) hge hlt]
  exact ⟨fun h => h hmax, fun h _ => h⟩

theorem ahead_after (hmean : S.zero < S.samplingMean) (hmax : 1 ≤ S.maxDecodeTokenSamplesForPrediction) (h : S.Advances)
    (n : Nat) : S.Ahead (S.after n) := by
  induction n with
  | zero => exact (ahead_zero_iff hmean hmax).mpr h.1
  | succ n ih =>
    intro hleft
    by_cases hp : S.shouldPredict (S.after n).decodeTokenSampler ((S.after n).generatedTokenCount + 1)
    · have hcount : (S.after n).decodeTokenSampler.sampleCount + 1 < S.maxDecodeTokenSamplesForPrediction := by
        rwa [after, (processToken_of_shouldPredict hp).2.1] at hleft
      exact (ahead_succ_iff hmean hp hcount).mpr (h.2 n hp hcount) hleft
    · simp only [after, processToken_of_not hp] at hleft ⊢
      have hlt := ih hleft
      have hne : (((S.after n).generatedTokenCount + 1 : Nat) : Int) ≠ (S.after n).decodeTokenSampler.nextSampleToken := by
        intro he
        exact hp (by simp [shouldPredict, he, hleft])
      omega

theorem advances_of_ahead (hmean : S.zero < S.samplingMean) (hmax : 1 ≤ S.maxDecodeTokenSamplesForPrediction)
    (h : ∀ n, S.Ahead (S.after n)) : S.Advances :=
  ⟨(ahead_zero_iff hmean hmax).mp (h 0), fun n hp hleft => (ahead_succ_iff hmean hp hleft).mp (h (n + 1))⟩

theorem decodeTokenSampler_of_none {n : Nat} (h : (S.after n).decodeTokenSampler.sampleCount = 0) :
    (S.after n).decodeTokenSampler = S.newDecodeTokenSampler := by
  induction n with
  | zero => rfl
  | succ n ih =>
    by_cases hp : S.shouldPredict (S.after n).decodeTokenSampler ((S.after n).generatedTokenCount + 1)
    · rw [after, (processToken_of_shouldPredict hp).2.1] at h
      cases h
    · rw [after, processToken_of_not hp] at h ⊢
      exact ih h

theorem length_predictions (n : Nat) :
    (S.after n).predictions.length = (S.after n).decodeTokenSampler.sampleCount ∧
      (S.after n).decodeTokenSampler.sampleCount ≤ S.maxDecodeTokenSamplesForPrediction := by
  induction n with
  | zero => exact ⟨rfl, Nat.zero_le _⟩
  | succ n ih =>
    by_cases hp : S.shouldPredict (S.after n).decodeTokenSampler ((S.after n).generatedTokenCount + 1)
    · obtain ⟨-, hc, hl, -⟩ := processToken_of_shouldPredict hp
      have hlt : (S.after n).decodeTokenSampler.sampleCount < S.maxDecodeTokenSamplesForPrediction := by
        simp only [shouldPredict, Bool.and_eq_true, decide_eq_true_eq] at hp
        exact hp.2
      simp only [after, hc, hl, List.length_append, List.length_singleton]
      omega
    · simpa only [after, processToken_of_not hp] using ih

theorem sampleCount_mono {n n' : Nat} (h : n ≤ n') :
    (S.after n).decodeTokenSampler.sampleCount ≤ (S.after n').decodeTokenSampler.sampleCount := by
  induction h with
  | refl => exact le_rfl
  | step _ ih =>
    refine ih.trans ?_
    rename_i m _
    by_cases hp : S.shouldPredict (S.after m).decodeTokenSampler ((S.after m).generatedTokenCount + 1)
    · rw [after, (processToken_of_shouldPredict hp).2.1]
      exact Nat.le_succ _
    · rw [after, processToken_of_not hp]

/-- While the next sampled token lies ahead the counter comes nearer to it. -/
theorem exists_next_prediction (h : ∀ n, S.Ahead (S.after n)) : ∀ (d n : Nat),
    (S.after n).decodeTokenSampler.sampleCount < S.maxDecodeTokenSamplesForPrediction →
    (S.after n).decodeTokenSampler.nextSampleToken ≤ (S.after n).generatedTokenCount + d →
    ∃ n', (S.after n').decodeTokenSampler.sampleCount = (S.after n).decodeTokenSampler.sampleCount + 1
  | 0, n, hleft, hd => by
    have := h n hleft
    omega
  | d + 1, n, hleft, hd => by
    by_cases hp : S.shouldPredict (S.after n).decodeTokenSampler ((S.after n).generatedTokenCount + 1)
    · exact ⟨n + 1, (processToken_of_shouldPredict hp).2.1⟩
    · have hn : S.after (n + 1) = _ := processToken_of_not hp
      obtain ⟨n', hn'⟩ := exists_next_prediction h d (n + 1) (by rw [hn]; exact hleft)
        (by rw [hn]; push_cast at hd ⊢; omega)
      exact ⟨n', by rw [hn', hn]⟩

theorem exists_sampleCount (h : ∀ n, S.Ahead (S.after n)) :
    ∀ k ≤ S.maxDecodeTokenSamplesForPrediction, ∃ n, (S.after n).decodeTokenSampler.sampleCount = k
  | 0, _ => ⟨0, rfl⟩
  | k + 1, hk => by
    obtain ⟨n, rfl⟩ := exists_sampleCount h k (by omega)
    refine exists_next_prediction h
      ((S.after n).decodeTokenSampler.nextSampleToken - (S.after n).generatedTokenCount).toNat n (by omega) ?_
    omega

/-- **The sampler stalls unless every interval it draws moves it on.** The next
sampled token stays ahead of the counter, for as long as predictions are left,
exactly if the draws advance it; a long enough response then gets all its
predictions. -/
theorem sampling_never_stalls_iff (S : Sampling F) (hmean : S.zero < S.samplingMean)
    (hmax : 1 ≤ S.maxDecodeTokenSamplesForPrediction) :
    ((∀ n, S.Ahead (S.after n)) ↔ S.Advances) ∧
      (S.Advances → ∃ N, ∀ n ≥ N, (S.after n).predictions.length = S.maxDecodeTokenSamplesForPrediction) := by
  refine ⟨⟨advances_of_ahead hmean hmax, ahead_after hmean hmax⟩, fun h => ?_⟩
  obtain ⟨N, hN⟩ := exists_sampleCount (ahead_after hmean hmax h) _ le_rfl
  refine ⟨N, fun n hn => ?_⟩
  have hmono := S.sampleCount_mono hn
  have hlen := S.length_predictions n
  omega

/-- A mean of one, two predictions, and a source that always returns `u`. -/
def constant (u : Rat) (h : 1 * u * u ≤ 3679 / 10000) : Sampling Rat where
  zero := 0
  one := 1
  thirty := 30
  exp _ := 3679 / 10000
  mul := (· * ·)
  approximate _ _ := 1
  approximate_lt _ _ := by decide
  float64 _ := u
  normFloat64 _ := 0
  samplingMean := 1
  maxDecodeTokenSamplesForPrediction := 2
  rounds := 2
  rounds_le := by decide
  ends _ _ := ⟨2, le_rfl, h⟩

theorem half_ends : (1 : Rat) * (1 / 2) * (1 / 2) ≤ 3679 / 10000 := by decide +kernel

theorem quarter_ends : (1 : Rat) * (1 / 4) * (1 / 4) ≤ 3679 / 10000 := by decide +kernel

/-- A mean beyond the range of an `int`, on a machine whose conversion saturates. -/
def huge : Sampling Rat :=
  { constant (1 / 4) quarter_ends with
    samplingMean := 10 ^ 19
    approximate := fun _ _ => 2 ^ 63 - 1
    approximate_lt := fun _ _ => by decide
    ends := fun h => absurd h (by decide +kernel) }

/-- Draws of one half lie above `exp(-1)`: both predictions are made. -/
theorem sampling_never_stalls_half :
    (constant (1 / 2) half_ends).zero < (constant (1 / 2) half_ends).samplingMean ∧
      ∃ N, ∀ n ≥ N, ((constant (1 / 2) half_ends).after n).predictions.length = 2 := by
  have hmean : (constant (1 / 2) half_ends).zero < (constant (1 / 2) half_ends).samplingMean := by decide +kernel
  have hlong : ∀ rng, ∀ j ≤ 1, (3679 / 10000 : Rat) < product (· * ·) 1 (fun _ => 1 / 2) rng j := by
    rintro rng (_ | _ | j) hj
    · show (3679 / 10000 : Rat) < 1
      decide +kernel
    · show (3679 / 10000 : Rat) < 1 * (1 / 2)
      decide +kernel
    · omega
  refine ⟨hmean, (sampling_never_stalls_iff _ hmean (by decide)).2 ⟨?_, fun n hp hleft => ?_⟩⟩
  · exact ⟨fun j hj => hlong 0 j (hj.trans (Nat.zero_le 1)), 2, half_ends, by decide⟩
  · -- one prediction is left after this one, so it is the first, for token 3
    have hnone : ((constant (1 / 2) half_ends).after n).decodeTokenSampler.sampleCount = 0 :=
      Nat.lt_one_iff.mp (Nat.succ_lt_succ_iff.mp hleft)
    rw [decodeTokenSampler_of_none hnone] at hp ⊢
    have htoken : ((((constant (1 / 2) half_ends).after n).generatedTokenCount + 1 : Nat) : Int) = 3 := by
      simp only [shouldPredict, Bool.and_eq_true, decide_eq_true_eq] at hp
      exact hp.1.trans (by decide +kernel)
    exact ⟨hlong _, 2, half_ends, by push_cast at htoken; omega⟩

/-- A draw of one quarter gives an interval of zero: the second token is
predicted, and is then the next one to predict for as well. An interval of
2^63 - 1 wraps: the first token to predict for is negative. -/
theorem quarter_stalls :
    ((constant (1 / 4) quarter_ends).after 1).decodeTokenSampler.sampleCount = 1 ∧
      ((constant (1 / 4) quarter_ends).after 1).decodeTokenSampler.nextSampleToken = 2 ∧
      ((constant (1 / 4) quarter_ends).after 1).generatedTokenCount = 2 ∧
      ((constant (1 / 4) quarter_ends).after 50).predictions = [2] ∧
      huge.newDecodeTokenSampler.nextSampleToken = 1 - 2 ^ 63 ∧ (huge.after 50).predictions = [] := by
  decide +kernel

end Sampling

end InferenceScheduler.PredictedLatency
