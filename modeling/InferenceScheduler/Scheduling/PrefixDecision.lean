/-
The prefix match a request's endpoints carry, from the precise prefix-cache
scorer that computes it to the decider that reads it.

`PrepareRequestData` puts the matched blocks, the number of blocks and the block
size on each candidate endpoint; the prefix-based decider reads the attribute on
the endpoint the decode profile has picked. The plugin's `Score` puts a match of
its own under the same key.

What the KV-cache library and the tokenizer compute is a parameter (`External`),
scores are rationals.
-/
import InferenceScheduler.Scheduling.Schedule
import Mathlib.Algebra.Order.Ring.Rat

namespace InferenceScheduler.Scheduling

/-! ## Requests and endpoints -/

structure Metadata where
  address : String
  port : String
  deriving Repr, DecidableEq

/-- `fmt.Sprintf("%s:%s", md.Address, md.Port)`. -/
def Metadata.key (m : Metadata) : String := m.address ++ ":" ++ m.port

/-- A candidate endpoint; `id` tells the objects apart. -/
structure Endpoint where
  id : Nat
  metadata : Option Metadata
  deriving Repr, DecidableEq

/-- `InferenceRequestBody`, over a type of chat requests. -/
structure Body (χ : Type) where
  completions : Option String
  chatCompletions : Option χ

structure Request (χ : Type) where
  targetModel : String
  body : Option (Body χ)

/-- `PrefixCacheMatchInfo`. -/
structure MatchInfo where
  matchBlocks : Int
  totalBlocks : Int
  blockSizeTokens : Int
  deriving Repr, DecidableEq

/-- `map[string]float64`, by pod address. -/
abbrev Scores := String → Option Rat

/-- What the KV-cache library and the JSON encoder answer. -/
structure External (χ β π : Type) where
  /-- `json.Marshal` of the messages of a chat request. -/
  marshalMessages : χ → Except String (List UInt8)
  /-- `kvCacheIndexer.ComputeBlockKeys`. -/
  computeBlockKeys : Option χ → String → String → Except String (List β)
  /-- `KVBlockIndex().Lookup`, restricted to some pods. -/
  lookup : List β → List String → Except String π
  /-- `kvBlockScorer.Score`. -/
  score : List β → π → Except String Scores
  /-- `Scorer.getScores`. -/
  getScores : Request χ → Except String Scores

/-- The endpoints' prefix-match attributes, and the request's plugin state. -/
structure PrefixState (β : Type) where
  attributes : Endpoint → Option MatchInfo
  pluginState : Option (List β × Scores)

section Attributes

/-- `Put` of the attribute, if there is one to put. -/
def put (attributes : Endpoint → Option MatchInfo) (e : Endpoint) (i : Option MatchInfo) :
    Endpoint → Option MatchInfo :=
  if i.isSome then Function.update attributes e i else attributes

/-- Puts the attribute on each endpoint of a list that `info` gives one for. -/
def putAll (info : Endpoint → Option MatchInfo) :
    List Endpoint → (Endpoint → Option MatchInfo) → Endpoint → Option MatchInfo
  | [], attributes => attributes
  | e :: es, attributes => putAll info es (put attributes e (info e))

variable {info : Endpoint → Option MatchInfo} {e : Endpoint} {i : MatchInfo}

theorem putAll_eq_self {a : Endpoint → Option MatchInfo} {es : List Endpoint} (h : info e = some i)
    (ha : a e = some i) : putAll info es a e = some i := by
  induction es generalizing a with
  | nil => exact ha
  | cons x es ih =>
    refine ih ?_
    unfold put
    split
    · by_cases he : e = x
      · subst he
        rw [Function.update_self, h]
      · rw [Function.update_of_ne he, ha]
    · exact ha

theorem putAll_of_mem (h : info e = some i) {es : List Endpoint} (he : e ∈ es) :
    ∀ a : Endpoint → Option MatchInfo, putAll info es a e = some i := by
  induction es with
  | nil => cases he
  | cons x es ih =>
    intro a
    rcases List.mem_cons.mp he with rfl | he
    · rw [putAll]
      exact putAll_eq_self h (by simp [put, h])
    · exact ih he _

end Attributes

/-! ## The precise prefix-cache scorer -/

section Scorer

variable {χ β π : Type} (ext : External χ β π)

/-- The fields of `preciseprefixcache.Scorer` that decide what is written. -/
structure PreciseScorer where
  speculativeEnabled : Bool
  blockSizeTokens : Int
  deriving Repr, DecidableEq

/-- `Scorer.computeBlockKeys`. -/
def computeBlockKeys (request : Request χ) : Except String (List β) :=
  match request.body with
  | none => .ok []
  | some body =>
    match body.chatCompletions, body.completions with
    | some chat, _ => ext.computeBlockKeys (some chat) "" request.targetModel
    | none, some prompt => ext.computeBlockKeys none prompt request.targetModel
    | none, none => .ok []

def extractPodSet (endpoints : List Endpoint) : List String :=
  (endpoints.filterMap fun e => e.metadata.map Metadata.key).dedup

/-- Steps 1 to 4 of `PrepareRequestData`; nothing without a body or a full block. -/
def prefixMatch (request : Request χ) (endpoints : List Endpoint) :
    Except String (Option (List β × Scores)) :=
  if request.body.isNone then .ok none
  else do
    let blockKeys ← (computeBlockKeys ext request).mapError ("failed to compute block keys: " ++ ·)
    if blockKeys.isEmpty then return none
    let keyToPods ← (ext.lookup blockKeys (extractPodSet endpoints)).mapError ("failed to lookup block keys: " ++ ·)
    let scores ← (ext.score blockKeys keyToPods).mapError ("failed to score block keys: " ++ ·)
    return some (blockKeys, scores)

/-- `int(x)` of a float. -/
def truncate (x : Rat) : Int := x.num.tdiv x.den

/-- As `PrepareRequestData` puts it; no metadata, no match. -/
def computedMatch (blockSize : Int) (blockKeys : List β) (scores : Scores) (e : Endpoint) : Option MatchInfo :=
  e.metadata.map fun m => ⟨truncate ((scores m.key).getD 0), blockKeys.length, blockSize⟩

/-- `Scorer.PrepareRequestData`. -/
def prepareRequestData (plugin : PreciseScorer) (request : Option (Request χ)) (endpoints : List Endpoint)
    (st : PrefixState β) : Except String (PrefixState β) :=
  match plugin.speculativeEnabled, request with
  | true, some request => do
    match ← prefixMatch ext request endpoints with
    | none => return st
    | some (blockKeys, scores) =>
      return {
        attributes := putAll (computedMatch plugin.blockSizeTokens blockKeys scores) endpoints st.attributes
        pluginState := some (blockKeys, scores) }
  | _, _ => return st

/-- A positive score. -/
def hit (scores : Scores) (m : Metadata) : Bool := (scores m.key).any (0 < ·)

/-- The match of an endpoint as `Score` puts it. -/
def scoredMatch (scores : Scores) (e : Endpoint) : MatchInfo :=
  ⟨if e.metadata.any (hit scores) then 1 else 0, 1, 1⟩

/-- `Scorer.Score`, as far as it changes the state. -/
def score (request : Option (Request χ)) (endpoints : List Endpoint) (st : PrefixState β) : PrefixState β :=
  match request with
  | none => st
  | some request =>
    match st.pluginState.elim (ext.getScores request) fun saved => .ok saved.2 with
    | .error _ => st
    | .ok scores =>
      { st with attributes := putAll (fun e => some (scoredMatch scores e)) endpoints st.attributes }

end Scorer

/-! ## Profiles -/

section Profiles

variable {χ β π : Type}

/-- A filter: it chooses among the endpoints it is given. -/
structure Filter (χ β : Type) where
  filter : PrefixState β → Option (Request χ) → List Endpoint → List Endpoint
  subset : ∀ st request endpoints, filter st request endpoints ⊆ endpoints

/-- A picker: it chooses among the endpoints that were scored. -/
structure Picker (χ β : Type) where
  pick : PrefixState β → Option (Request χ) → List Endpoint → List Endpoint
  subset : ∀ st request endpoints, pick st request endpoints ⊆ endpoints

/-- The precise prefix-cache scorer, or one that leaves the attribute alone. -/
inductive Scorer
  | precisePrefixCache
  | other
  deriving Repr, DecidableEq

structure SchedulerProfile (χ β : Type) where
  filters : List (Filter χ β)
  scorers : List Scorer
  picker : Picker χ β

variable (ext : External χ β π) (request : Option (Request χ))

def runFilterPlugins (st : PrefixState β) : List (Filter χ β) → List Endpoint → List Endpoint
  | [], endpoints => endpoints
  | f :: fs, endpoints =>
    match f.filter st request endpoints with
    | [] => []
    | endpoints => runFilterPlugins st fs endpoints

/-- `runScorerPlugins`, as far as it changes the state. -/
def runScorerPlugins (endpoints : List Endpoint) : List Scorer → PrefixState β → PrefixState β
  | [], st => st
  | .precisePrefixCache :: scorers, st => runScorerPlugins endpoints scorers (score ext request endpoints st)
  | .other :: scorers, st => runScorerPlugins endpoints scorers st

/-- The state after it and the target endpoints, nil if none passes the filters. -/
def SchedulerProfile.run (p : SchedulerProfile χ β) (candidates : List Endpoint) (st : PrefixState β) :
    PrefixState β × Option (List Endpoint) :=
  let endpoints := runFilterPlugins request st p.filters candidates
  if endpoints.isEmpty then (st, none)
  else
    let st := runScorerPlugins ext request endpoints p.scorers st
    (st, some (p.picker.pick st request endpoints))

end Profiles

/-! ## The decider -/

section Decider

variable {χ β π : Type} (ext : External χ β π)

def getUserInputLenInTokens (request : Option (Request χ)) : Except String Int :=
  match request.bind (·.body) with
  | none => .error "request or request body is nil"
  | some body =>
    match body.completions, body.chatCompletions with
    | some prompt, _ => .ok (prompt.utf8ByteSize / 4)
    | none, none => .error "request has neither completions nor chat completions body"
    | none, some chat => (ext.marshalMessages chat).map fun text => text.length / 4

/-- `PrefixBasedPDDecider.disaggregate` for an endpoint with the given
attribute. -/
def disaggregate (nonCachedTokens : Int) (request : Option (Request χ)) (info : Option MatchInfo) : Bool :=
  if nonCachedTokens = 0 then false
  else
    match getUserInputLenInTokens ext request with
    | .error _ => false
    | .ok inputTokens =>
      if inputTokens < nonCachedTokens then false
      else
        match info with
        | none => false
        | some info => ¬ inputTokens - info.matchBlocks * info.blockSizeTokens < nonCachedTokens

/-- A scheduler whose prefill decider is the prefix-based one; the encode decider is any. -/
def prefixEnv (nonCachedTokens : Int) (encode : PrefixState β → Option (Request χ) → Endpoint → Bool)
    (profiles : String → SchedulerProfile χ β) (candidates : List Endpoint) :
    Env (PrefixState β) (Request χ) Endpoint where
  prefill st request e := disaggregate ext nonCachedTokens request (st.attributes e)
  encode := encode
  run st request name := (profiles name).run ext request candidates st

end Decider

/-! ## What the decider reads -/

section Reads

variable {χ β π : Type} {ext : External χ β π} {request : Option (Request χ)} {scores : Scores}
  {blockKeys : List β} {st : PrefixState β} {e : Endpoint} {endpoints : List Endpoint}

theorem runFilterPlugins_subset : ∀ (fs : List (Filter χ β)) (endpoints : List Endpoint),
    runFilterPlugins request st fs endpoints ⊆ endpoints
  | [], _ => fun _ h => h
  | f :: fs, endpoints => by
    unfold runFilterPlugins
    split
    · exact List.nil_subset _
    · exact List.Subset.trans (runFilterPlugins_subset fs _) (f.subset st request endpoints)

/-- The scores `PrepareRequestData` saved are still there. -/
def Saved (blockKeys : List β) (scores : Scores) (st : PrefixState β) : Prop :=
  st.pluginState = some (blockKeys, scores)

/-- The endpoint has the match `Score` puts on it. -/
def Rewritten (scores : Scores) (st : PrefixState β) (e : Endpoint) : Prop :=
  st.attributes e = some (scoredMatch scores e)

variable {r : Request χ}

theorem score_attributes (hs : Saved blockKeys scores st) :
    (score ext (some r) endpoints st).attributes =
      putAll (fun e => some (scoredMatch scores e)) endpoints st.attributes := by
  rw [Saved] at hs
  simp only [score, hs, Option.elim_some]

theorem score_saved (ext : External χ β π) (r : Request χ) (endpoints : List Endpoint)
    (hs : Saved blockKeys scores st) :
    Saved blockKeys scores (score ext (some r) endpoints st) := by
  rw [Saved] at hs ⊢
  simp only [score, hs, Option.elim_some]

theorem runScorerPlugins_spec (ext : External χ β π) (r : Request χ) (endpoints : List Endpoint)
    (scorers : List Scorer) (hs : Saved blockKeys scores st) :
    Saved blockKeys scores (runScorerPlugins ext (some r) endpoints scorers st) ∧
      (∀ e, Rewritten scores st e → Rewritten scores (runScorerPlugins ext (some r) endpoints scorers st) e) ∧
      (.precisePrefixCache ∈ scorers → ∀ e ∈ endpoints,
        Rewritten scores (runScorerPlugins ext (some r) endpoints scorers st) e) := by
  induction scorers generalizing st with
  | nil => exact ⟨hs, fun _ h => h, nofun⟩
  | cons scorer scorers ih =>
    cases scorer with
    | other =>
      obtain ⟨h₁, h₂, h₃⟩ := ih hs
      exact ⟨h₁, h₂, fun hm => h₃ (by simpa using hm)⟩
    | precisePrefixCache =>
      obtain ⟨h₁, h₂, -⟩ := ih (score_saved ext r endpoints hs)
      refine ⟨h₁, fun e he => h₂ e ?_, fun _ e he => h₂ e ?_⟩
      · rw [Rewritten, score_attributes hs]
        exact putAll_eq_self rfl he
      · rw [Rewritten, score_attributes hs]
        exact putAll_of_mem rfl he _

theorem run_spec (ext : External χ β π) (r : Request χ) (candidates : List Endpoint) (p : SchedulerProfile χ β)
    (hs : Saved blockKeys scores st) :
    Saved blockKeys scores (p.run ext (some r) candidates st).1 ∧
      (∀ e, Rewritten scores st e → Rewritten scores (p.run ext (some r) candidates st).1 e) ∧
      (.precisePrefixCache ∈ p.scorers → ∀ targets, (p.run ext (some r) candidates st).2 = some targets →
        ∀ e ∈ targets, Rewritten scores (p.run ext (some r) candidates st).1 e ∧ e ∈ candidates) := by
  simp only [SchedulerProfile.run]
  split
  · exact ⟨hs, fun _ h => h, nofun⟩
  · obtain ⟨h₁, h₂, h₃⟩ :=
      runScorerPlugins_spec ext r (runFilterPlugins (some r) st p.filters candidates) p.scorers hs
    refine ⟨h₁, h₂, fun hm targets ht e he => ?_⟩
    cases ht
    have hin := p.picker.subset _ _ _ he
    exact ⟨h₃ hm e hin, runFilterPlugins_subset _ _ hin⟩

variable {c : SchedulerConfig} {decode prefill encode : String} {encodeDecider : Bool} {nonCachedTokens : Int}
  {encodeAnswer : PrefixState β → Option (Request χ) → Endpoint → Bool}
  {profiles : String → SchedulerProfile χ β} {candidates : List Endpoint} {st' st₀ : PrefixState β} {results : Results Endpoint}

theorem targets_rewritten (hp : .precisePrefixCache ∈ (profiles decode).scorers) (hs : Saved blockKeys scores st₀)
    (hv : Visits c (prefixEnv ext nonCachedTokens encodeAnswer profiles candidates) (some r) st₀ st results) :
    Saved blockKeys scores st ∧ ∀ targets, results.lookup decode = some (some targets) →
      ∀ e ∈ targets, Rewritten scores st e ∧ e ∈ candidates := by
  refine Visits.invariant (fun st results => Saved blockKeys scores st ∧
    ∀ targets, results.lookup decode = some (some targets) → ∀ e ∈ targets, Rewritten scores st e ∧ e ∈ candidates)
    ⟨hs, nofun⟩ ?_ ?_ hv
  · rintro st results names r ⟨hs, ht⟩ hpick
    exact ⟨hs, fun targets hl => ht targets (pick_lookup hpick hl)⟩
  · rintro st results name ⟨hs, ht⟩ -
    obtain ⟨h₁, h₂, h₃⟩ := run_spec ext r candidates (profiles name) hs
    refine ⟨h₁, fun targets hl e he => ?_⟩
    by_cases hn : decode = name
    · subst hn
      rw [AList.lookup_insert, Option.some.injEq] at hl
      exact h₃ hp targets hl e he
    · rw [AList.lookup_insert_ne hn] at hl
      obtain ⟨hr, hin⟩ := ht targets hl e he
      exact ⟨h₂ e hr, hin⟩

theorem prepareRequestData_spec {plugin : PreciseScorer} (hspec : plugin.speculativeEnabled = true)
    (hm : prefixMatch ext r candidates = .ok (some (blockKeys, scores)))
    (hst : prepareRequestData ext plugin (some r) candidates st = .ok st₀) :
    Saved blockKeys scores st₀ ∧ ∀ e ∈ candidates, e.metadata.isSome →
      st₀.attributes e = computedMatch plugin.blockSizeTokens blockKeys scores e := by
  simp only [prepareRequestData, hspec, hm, bind, Except.bind, pure, Except.pure, Except.ok.injEq] at hst
  subst hst
  refine ⟨rfl, fun e he hmeta => ?_⟩
  obtain ⟨m, hmeta⟩ := Option.isSome_iff_exists.mp hmeta
  have hc : computedMatch plugin.blockSizeTokens blockKeys scores e =
      some ⟨truncate ((scores m.key).getD 0), blockKeys.length, plugin.blockSizeTokens⟩ := by
    rw [computedMatch, hmeta, Option.map_some]
  rw [hc]
  exact putAll_of_mem hc he _

/-- `Schedule` is about to ask the prefix-based decider about an endpoint: the decode
profile found it, the encode stage picks nothing and prefill is not executed. -/
structure Consults (c : SchedulerConfig) (decode prefill encode : String) (encodeYes : Endpoint → Bool)
    (results : Results Endpoint) (e : Endpoint) : Prop where
  target : ∃ targets, results.lookup decode = some (some (e :: targets))
  skipped : (pickStage c.profiles encode (encodeYes e) results).1 = []
  configured : prefill ∈ c.profiles
  notExecuted : ¬ (pickStage c.profiles encode (encodeYes e) results).2.executed prefill = true

theorem Consults.pick_eq (env : Env (PrefixState β) (Request χ) Endpoint)
    (hh : c.profileHandler = .disagg decode prefill encode true encodeDecider)
    (h : Consults c decode prefill encode (fun e => encodeDecider && env.encode st (some r) e) results e) :
    (c.profileHandler.pick c.profiles (some r) (env.prefill st) (env.encode st) results).map Prod.fst =
      some (if env.prefill st (some r) e then [prefill] else []) := by
  obtain ⟨targets, ht⟩ := h.target
  have hx : results.executed decode = true := by rw [Results.executed, ht, Option.isSome_some]
  have hg : results.get decode = some (e :: targets) := by rw [Results.get, ht]; rfl
  obtain ⟨marked, hm⟩ : ∃ marked,
      pickStage c.profiles encode (encodeDecider && env.encode st (some r) e) results = ([], marked) :=
    ⟨_, Prod.ext h.skipped rfl⟩
  have hn : ¬ marked.executed prefill = true := by simpa only [hm] using h.notExecuted
  rw [hh, ProfileHandler.pick, Option.map_some, pickDisagg, if_neg (by simp), if_neg (by simp [hx])]
  simp only [hg, hm]
  rw [pickStage, if_pos ⟨h.configured, hn⟩, Bool.true_and]
  split <;> rfl

/-- The request is one block of one token, matched as its score says. -/
def Coincides (plugin : PreciseScorer) (blockKeys : List β) (scores : Scores) (m : Metadata) : Prop :=
  blockKeys.length = 1 ∧ plugin.blockSizeTokens = 1 ∧
    truncate ((scores m.key).getD 0) = if hit scores m then 1 else 0

theorem scoredMatch_eq_computed {plugin : PreciseScorer} {m : Metadata} (hm : e.metadata = some m) :
    some (scoredMatch scores e) = computedMatch plugin.blockSizeTokens blockKeys scores e ↔
      Coincides plugin blockKeys scores m := by
  simp only [scoredMatch, computedMatch, hm, Option.any_some, Option.map_some, Option.some.injEq, MatchInfo.mk.injEq,
    Coincides]
  constructor
  · rintro ⟨h₁, h₂, h₃⟩
    exact ⟨by exact_mod_cast h₂.symm, h₃.symm, h₁.symm⟩
  · rintro ⟨h₁, h₂, h₃⟩
    exact ⟨h₃.symm, by exact_mod_cast h₁.symm, h₂.symm⟩

theorem disaggregate_iff (ext : External χ β π) (request : Option (Request χ)) (i : MatchInfo) (ht : nonCachedTokens ≠ 0)
    (h : 0 ≤ i.matchBlocks * i.blockSizeTokens) :
    disaggregate ext nonCachedTokens request (some i) = true ↔
      ∃ n, getUserInputLenInTokens ext request = .ok n ∧
        nonCachedTokens ≤ n - i.matchBlocks * i.blockSizeTokens := by
  rw [disaggregate, if_neg ht]
  cases hn : getUserInputLenInTokens ext request with
  | error err => simp
  | ok n =>
    simp only [Except.ok.injEq, exists_eq_left']
    split
    next hlt =>
      have : ¬ nonCachedTokens ≤ n - i.matchBlocks * i.blockSizeTokens := by omega
      simp [this]
    · simp

/-- **When the prefix-based decider is asked about the decode endpoint, the
endpoint still has the match `PrepareRequestData` put there (and prefill is
picked exactly when the tokens that match leaves reach the threshold) just in
case `Score` happens to put the same one.** -/
theorem decider_reads_computed_iff (plugin : PreciseScorer) (profiles : String → SchedulerProfile χ β) {m : Metadata}
    (hspec : plugin.speculativeEnabled = true) (ht : 0 < nonCachedTokens)
    (hp : .precisePrefixCache ∈ (profiles decode).scorers)
    (hh : c.profileHandler = .disagg decode prefill encode true encodeDecider)
    (hm : prefixMatch ext r candidates = .ok (some (blockKeys, scores)))
    (hst : prepareRequestData ext plugin (some r) candidates st = .ok st₀)
    (hv : Visits c (prefixEnv ext nonCachedTokens encodeAnswer profiles candidates) (some r) st₀ st' results)
    (hc : Consults c decode prefill encode (fun e => encodeDecider && encodeAnswer st' (some r) e) results e)
    (hmeta : e.metadata = some m) :
    (st'.attributes e = st₀.attributes e ∧
      ((c.profileHandler.pick c.profiles (some r) (fun request e => disaggregate ext nonCachedTokens request
          (st'.attributes e)) (encodeAnswer st') results).map Prod.fst = some [prefill] ↔
        ∃ n, getUserInputLenInTokens ext (some r) = .ok n ∧
          nonCachedTokens ≤ n - truncate ((scores m.key).getD 0) * plugin.blockSizeTokens)) ↔
      Coincides plugin blockKeys scores m := by
  obtain ⟨hs, hput⟩ := prepareRequestData_spec hspec hm hst
  obtain ⟨targets, hl⟩ := hc.target
  obtain ⟨hrw, hin⟩ := (targets_rewritten hp hs hv).2 _ hl e List.mem_cons_self
  have h₀ := hput e hin (by rw [hmeta, Option.isSome_some])
  rw [h₀, ← scoredMatch_eq_computed hmeta, ← hrw]
  refine and_iff_left_of_imp fun he => ?_
  rw [hrw] at he
  have hcoin := (scoredMatch_eq_computed hmeta).mp he
  have hinfo : st'.attributes e =
      some ⟨truncate ((scores m.key).getD 0), blockKeys.length, plugin.blockSizeTokens⟩ := by
    rw [hrw, he, computedMatch, hmeta, Option.map_some]
  have hpick := hc.pick_eq (prefixEnv ext nonCachedTokens encodeAnswer profiles candidates) hh
  simp only [prefixEnv, hinfo] at hpick
  have hdec := disaggregate_iff ext (some r)
    ⟨truncate ((scores m.key).getD 0), blockKeys.length, plugin.blockSizeTokens⟩ ht.ne'
    (by rw [hcoin.2.1, hcoin.2.2]; split <;> simp)
  rw [hpick, ← hdec]
  split
  next hd => exact iff_of_true rfl hd
  next hd => exact iff_of_false (by simp) hd

end Reads

/-! ## A run of each kind -/

section Sample

/-- A library that finds the given keys for every prompt and the given score
on every pod. -/
def sampleExternal (blockKeys : List Nat) (score : Rat) : External Unit Nat Unit where
  marshalMessages _ := .ok []
  computeBlockKeys _ _ _ := .ok blockKeys
  lookup _ _ := .ok ()
  score _ _ := .ok fun _ => some score
  getScores _ := .error "no scores"

/-- A prompt of sixteen characters: four tokens. -/
def sampleRequest : Request Unit := ⟨"model", some ⟨some "one two three 4!", none⟩⟩

def sampleMetadata : Metadata := ⟨"10.0.0.1", "8000"⟩

def sampleEndpoint : Endpoint := ⟨0, some sampleMetadata⟩

def sampleProfile : SchedulerProfile Unit Nat where
  filters := []
  scorers := [.precisePrefixCache]
  picker := { pick := fun _ _ endpoints => endpoints, subset := fun _ _ _ => List.Subset.refl _ }

theorem sampleProfiles_nodup : ["decode", "prefill"].Nodup := by decide

def sampleConfig : SchedulerConfig where
  profileHandler := .disagg "decode" "prefill" "encode" true false
  profiles := ["decode", "prefill"]
  nodup := sampleProfiles_nodup

/-- The environment with a threshold of two tokens. -/
def sampleEnv (ext : External Unit Nat Unit) : Env (PrefixState Nat) (Request Unit) Endpoint :=
  prefixEnv ext 2 (fun _ _ _ => false) (fun _ => sampleProfile) [sampleEndpoint]

/-- The state before `PrepareRequestData`. -/
def blankState : PrefixState Nat := ⟨fun _ => none, none⟩

/-- The results after the decode profile ran. -/
def decodeResults : Results Endpoint := AList.insert "decode" (some [sampleEndpoint]) ∅

theorem visits_sample (ext : External Unit Nat Unit) (st : PrefixState Nat) :
    Visits sampleConfig (sampleEnv ext) (some sampleRequest) st
      (sampleProfile.run ext (some sampleRequest) [sampleEndpoint] st).1 decodeResults :=
  .next .start rfl rfl

theorem consults_sample : Consults sampleConfig "decode" "prefill" "encode" (fun _ => false) decodeResults
    sampleEndpoint where
  target := ⟨[], rfl⟩
  skipped := rfl
  configured := by decide
  notExecuted := by decide

/-- One block of one token: the decider reads what was computed, and three
tokens are left. -/
theorem decider_reads_computed_one_token :
    ∃ st₀, prepareRequestData (sampleExternal [7] 1) ⟨true, 1⟩ (some sampleRequest) [sampleEndpoint] blankState =
        .ok st₀ ∧
      (sampleProfile.run (sampleExternal [7] 1) (some sampleRequest) [sampleEndpoint] st₀).1.attributes
        sampleEndpoint = st₀.attributes sampleEndpoint :=
  ⟨_, rfl, ((decider_reads_computed_iff ⟨true, 1⟩ (fun _ => sampleProfile) rfl (by decide) (by decide) rfl rfl rfl
    (visits_sample (sampleExternal [7] 1) _) consults_sample rfl).mpr ⟨rfl, rfl, by decide +kernel⟩).1⟩

/-- Two blocks of two tokens, all matched: nothing is left to prefill, but the
decider reads one block of one token, and the prefill profile is picked. -/
theorem score_overwrites_match :
    ∃ st₀, prepareRequestData (sampleExternal [7, 8] 2) ⟨true, 2⟩ (some sampleRequest) [sampleEndpoint] blankState =
        .ok st₀ ∧
      st₀.attributes sampleEndpoint = some ⟨2, 2, 2⟩ ∧
      getUserInputLenInTokens (sampleExternal [7, 8] 2) (some sampleRequest) = .ok 4 ∧
      ∃ st results, Visits sampleConfig (sampleEnv (sampleExternal [7, 8] 2)) (some sampleRequest) st₀ st results ∧
        Consults sampleConfig "decode" "prefill" "encode" (fun _ => false) results sampleEndpoint ∧
        st.attributes sampleEndpoint = some ⟨1, 1, 1⟩ ∧
        (sampleConfig.profileHandler.pick sampleConfig.profiles (some sampleRequest)
          ((sampleEnv (sampleExternal [7, 8] 2)).prefill st) ((sampleEnv (sampleExternal [7, 8] 2)).encode st)
          results).map Prod.fst = some ["prefill"] := by
  refine ⟨_, rfl, by decide +kernel, rfl, _, _, visits_sample _ _, consults_sample, by decide +kernel, ?_⟩
  decide +kernel

end Sample

end InferenceScheduler.Scheduling
