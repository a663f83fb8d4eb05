/-
The block hashes of a prompt
(`requestcontrol/dataproducer/approximateprefix/hashing.go`): the prompt's bytes
are cut into blocks, and each block is hashed together with the hash before it;
the first is the hash of the target model and the cache salt, with nothing to
say where the model ends.

xxhash is a function of the bytes written to it; the strings it is given for the
two requests are assumed not to collide.
-/
import InferenceScheduler.InFlight.Producer
import InferenceScheduler.Lib.Bytes
import InferenceScheduler.Lib.HashChain

namespace InferenceScheduler.PrefixCache

open InFlight (int64)

abbrev BlockHash := UInt64

def averageCharactersPerToken : Int := 4

/-! ## Requests -/

/-- `Prompt`: the text, or a list of texts. -/
structure Prompt where
  raw : Bytes
  strings : List Bytes

/-- `Prompt.PlainText`. -/
def Prompt.plainText (p : Prompt) : Bytes :=
  if p.raw ≠ [] then p.raw else (p.strings.intersperse (str " ")).flatten

/-- What `json.Marshal` makes of the prompt, if it does not fail, and the salt. -/
structure Marshalled where
  json : Option Bytes
  cacheSalt : Bytes

structure CompletionsRequest where
  prompt : Prompt
  cacheSalt : Bytes

structure InferenceRequestBody where
  conversations : Option Marshalled := none
  responses : Option Marshalled := none
  chatCompletions : Option Marshalled := none
  completions : Option CompletionsRequest := none
  embeddings : Option Marshalled := none

structure InferenceRequest where
  targetModel : Bytes
  body : Option InferenceRequestBody

namespace InferenceRequestBody

variable (r : InferenceRequestBody)

def cacheSalt : Bytes :=
  match r.conversations, r.responses, r.chatCompletions, r.completions, r.embeddings with
  | some api, _, _, _, _ => api.cacheSalt
  | none, some api, _, _, _ => api.cacheSalt
  | none, none, some api, _, _ => api.cacheSalt
  | none, none, none, some api, _ => api.cacheSalt
  | none, none, none, none, some api => api.cacheSalt
  | none, none, none, none, none => []

/-- `getUserInputBytes`; `none` is an error. -/
def getUserInputBytes : Option Bytes :=
  match r.conversations, r.responses, r.chatCompletions, r.completions, r.embeddings with
  | some api, _, _, _, _ => api.json
  | none, some api, _, _, _ => api.json
  | none, none, some api, _, _ => api.json
  | none, none, none, some api, _ => some api.prompt.plainText
  | none, none, none, none, some api => api.json
  | none, none, none, none, none => none

end InferenceRequestBody

/-! ## Hashing -/

/-- `toBytes`: little-endian. -/
def toBytes (i : BlockHash) : Bytes := (List.range 8).map fun k => Fin.ofNat 256 (i.toNat >>> (8 * k))

section

variable (sum64 : Bytes → BlockHash)

/-- The hash of a block and the one before it. -/
def blockHash (block : Bytes) (prevBlockHash : BlockHash) : BlockHash := sum64 (block ++ toBytes prevBlockHash)

/-- The loop over the full blocks from an index; the input's length is enough fuel. -/
def hashLoop (userInput : Bytes) (cacheBlockSizeChars : Nat) :
    Nat → Nat → BlockHash → List BlockHash → Nat × BlockHash × List BlockHash
  | 0, i, prevBlockHash, res => (i, prevBlockHash, res)
  | fuel + 1, i, prevBlockHash, res =>
    if i + cacheBlockSizeChars ≤ userInput.length then
      let hash := blockHash sum64 ((userInput.drop i).take cacheBlockSizeChars) prevBlockHash
      hashLoop userInput cacheBlockSizeChars fuel (i + cacheBlockSizeChars) hash (res ++ [hash])
    else (i, prevBlockHash, res)

/-- What is left after the full blocks is hashed as a partial block. -/
def hashRest (userInput : Bytes) (r : Nat × BlockHash × List BlockHash) : List BlockHash :=
  if r.1 < userInput.length then r.2.2 ++ [blockHash sum64 (userInput.drop r.1) r.2.1] else r.2.2

def hashBlocks (seed : BlockHash) (userInput : Bytes) (cacheBlockSizeChars : Nat) : List BlockHash :=
  hashRest sum64 userInput (hashLoop sum64 userInput cacheBlockSizeChars userInput.length 0 seed [])

/-- What is written before the first hash. -/
def seedText (targetModel cacheSalt : Bytes) : Bytes := targetModel ++ if cacheSalt ≠ [] then cacheSalt else []

/-- The input up to the limit; a negative limit is a slice out of range. -/
def truncate (userInput : Bytes) (limit : Int) : Option Bytes :=
  if userInput.length > limit then
    if limit < 0 then none else some (userInput.take limit.toNat)
  else some userInput

/-- `hashPrompt`; `none` is a panic. -/
def hashPrompt (request : Option InferenceRequest) (blockSizeTokens maxPrefixBlocks : Int) : Option (List BlockHash) :=
  match request with
  | none => some []
  | some request =>
    match request.body with
    | none => some []
    | some body =>
      match body.getUserInputBytes with
      | none => some []
      | some userInput =>
        let cacheBlockSizeChars := int64 (blockSizeTokens * averageCharactersPerToken)
        if cacheBlockSizeChars ≤ 0 then some []
        else if userInput.length < cacheBlockSizeChars then some []
        else
          (truncate userInput (int64 (cacheBlockSizeChars * maxPrefixBlocks))).map fun userInput =>
            hashBlocks sum64 (sum64 (seedText request.targetModel body.cacheSalt)) userInput cacheBlockSizeChars.toNat

end

/-! ## What is hashed -/

namespace InferenceRequest

variable (r : InferenceRequest) (blockSizeTokens maxPrefixBlocks : Int)

/-- The salt of the body. -/
def cacheSalt : Bytes := (r.body.map (·.cacheSalt)).getD []

/-- The bytes up to the limit, cut; none if they are fewer than a block. -/
def promptBlocks : List Bytes :=
  let cacheBlockSizeChars := int64 (blockSizeTokens * averageCharactersPerToken)
  match r.body.bind (·.getUserInputBytes) with
  | none => []
  | some userInput =>
    if cacheBlockSizeChars ≤ 0 ∨ userInput.length < cacheBlockSizeChars then []
    else blocks cacheBlockSizeChars.toNat (userInput.take (int64 (cacheBlockSizeChars * maxPrefixBlocks)).toNat)

/-- The strings that are hashed for the request's blocks. -/
def hashed (sum64 : Bytes → BlockHash) : List Bytes :=
  match r.promptBlocks blockSizeTokens maxPrefixBlocks with
  | [] => []
  | block :: more =>
    seedText r.targetModel r.cacheSalt ::
      (links (blockHash sum64) (sum64 (seedText r.targetModel r.cacheSalt)) (block :: more)).map fun p =>
        p.1 ++ toBytes p.2

end InferenceRequest

section Hashing

variable {sum64 : Bytes → BlockHash} {userInput : Bytes}

theorem mod_pow_eq_of_digits {b x y : Nat} :
    ∀ n, (∀ k < n, x / b ^ k % b = y / b ^ k % b) → x % b ^ n = y % b ^ n
  | 0, _ => by rw [Nat.pow_zero, Nat.mod_one, Nat.mod_one]
  | n + 1, h => by
    rw [Nat.mod_pow_succ, Nat.mod_pow_succ, mod_pow_eq_of_digits n fun k hk => h k (Nat.lt_succ_of_lt hk),
      h n (Nat.lt_succ_self n)]

theorem toBytes_injective {h h' : BlockHash} (heq : toBytes h = toBytes h') : h = h' := by
  have hdigits : ∀ k < 8, h.toNat / 256 ^ k % 256 = h'.toNat / 256 ^ k % 256 := by
    intro k hk
    have := congrArg Fin.val (List.map_inj_left.mp heq k (List.mem_range.mpr hk))
    simpa only [Fin.val_ofNat, Nat.shiftRight_eq_div_pow, Nat.pow_mul] using this
  have hmod : h.toNat % 2 ^ 64 = h'.toNat % 2 ^ 64 := mod_pow_eq_of_digits 8 hdigits
  rw [Nat.mod_eq_of_lt h.toNat_lt, Nat.mod_eq_of_lt h'.toNat_lt] at hmod
  exact UInt64.toNat_inj.mp hmod

theorem hashRest_hashLoop {n : Nat} (hn : 0 < n) :
    ∀ (fuel i : Nat) (prev : BlockHash) (res : List BlockHash), userInput.length ≤ i + fuel →
      hashRest sum64 userInput (hashLoop sum64 userInput n fuel i prev res) =
        res ++ chain (blockHash sum64) prev (blocks n (userInput.drop i)) := by
  intro fuel
  induction fuel with
  | zero =>
    intro i prev res hle
    rw [hashLoop, hashRest, if_neg (by omega), List.drop_eq_nil_of_le (by omega), blocks_nil hn]
    exact (List.append_nil _).symm
  | succ fuel ih =>
    intro i prev res hle
    rw [hashLoop]
    split
    · rename_i hfull
      have hne : userInput.drop i ≠ [] := by
        rw [Ne, List.drop_eq_nil_iff]
        omega
      rw [ih _ _ _ (by omega), blocks_eq_cons hn hne, List.drop_drop, chain, List.append_assoc]
      rfl
    · rename_i hpart
      rw [hashRest]
      split
      · rename_i hlt
        have hne : userInput.drop i ≠ [] := by
          rw [Ne, List.drop_eq_nil_iff]
          omega
        rw [blocks_of_length_le hne (by rw [List.length_drop]; omega)]
        rfl
      · rw [List.drop_eq_nil_of_le (by omega), blocks_nil hn]
        exact (List.append_nil _).symm

theorem hashBlocks_eq_chain {n : Nat} (hn : 0 < n) (seed : BlockHash) :
    hashBlocks sum64 seed userInput n = chain (blockHash sum64) seed (blocks n userInput) := by
  rw [hashBlocks, hashRest_hashLoop hn _ _ _ _ (by omega), List.drop_zero, List.nil_append]

theorem truncate_eq {limit : Int} {input : Bytes} (h : truncate userInput limit = some input) :
    input = userInput.take limit.toNat := by
  unfold truncate at h
  split at h
  · split at h
    · cases h
    · cases h
      rfl
  · cases h
    rw [List.take_of_length_le (by omega)]

variable {r r' : InferenceRequest} {blockSizeTokens maxPrefixBlocks : Int} {res res' : List BlockHash}

/-- **The result is the chain over the prompt's blocks**, from the hash of model
and salt. -/
theorem hashPrompt_eq_chain (h : hashPrompt sum64 (some r) blockSizeTokens maxPrefixBlocks = some res) :
    res = chain (blockHash sum64) (sum64 (seedText r.targetModel r.cacheSalt))
      (r.promptBlocks blockSizeTokens maxPrefixBlocks) := by
  obtain ⟨model, body⟩ := r
  simp only [hashPrompt] at h
  cases body with
  | none =>
    cases h
    rfl
  | some body =>
    simp only at h
    cases hinput : body.getUserInputBytes with
    | none =>
      rw [hinput] at h
      cases h
      simp only [InferenceRequest.promptBlocks, Option.bind_some, hinput, chain]
    | some userInput =>
      rw [hinput] at h
      simp only at h
      simp only [InferenceRequest.promptBlocks, Option.bind_some, hinput]
      split at h
      · rename_i hsize
        cases h
        rw [if_pos (.inl hsize)]
        rfl
      · rename_i hsize
        split at h
        · rename_i hshort
          cases h
          rw [if_pos (.inr hshort)]
          rfl
        · rename_i hlong
          obtain ⟨input, htrunc, rfl⟩ := Option.map_eq_some_iff.mp h
          rw [if_neg (by omega), hashBlocks_eq_chain (by omega), truncate_eq htrunc]
          rfl

/-! ## Prefixes -/

theorem links_injective
    (hcf : CollisionFree sum64 (r.hashed blockSizeTokens maxPrefixBlocks sum64 ++
      r'.hashed blockSizeTokens maxPrefixBlocks sum64)) :
    ∀ p ∈ links (blockHash sum64) (sum64 (seedText r.targetModel r.cacheSalt))
        (r.promptBlocks blockSizeTokens maxPrefixBlocks),
      ∀ q ∈ links (blockHash sum64) (sum64 (seedText r'.targetModel r'.cacheSalt))
          (r'.promptBlocks blockSizeTokens maxPrefixBlocks),
        blockHash sum64 p.1 p.2 = blockHash sum64 q.1 q.2 → p = q := by
  have hmem : ∀ (r : InferenceRequest), ∀ p ∈ links (blockHash sum64) (sum64 (seedText r.targetModel r.cacheSalt))
      (r.promptBlocks blockSizeTokens maxPrefixBlocks),
      p.1 ++ toBytes p.2 ∈ r.hashed blockSizeTokens maxPrefixBlocks sum64 := by
    intro r p hp
    unfold InferenceRequest.hashed
    split
    · rename_i hnil
      rw [hnil] at hp
      cases hp
    · rename_i block more hcons
      rw [hcons] at hp
      exact .tail _ (List.mem_map.mpr ⟨p, hp, rfl⟩)
  intro p hp q hq heq
  have htext := hcf _ (List.mem_append_left _ (hmem r p hp)) _ (List.mem_append_right _ (hmem r' q hq)) heq
  obtain ⟨hblock, hprev⟩ := List.append_inj' htext rfl
  exact Prod.ext hblock (toBytes_injective hprev)

theorem seedText_mem_hashed (h : r.promptBlocks blockSizeTokens maxPrefixBlocks ≠ []) :
    seedText r.targetModel r.cacheSalt ∈ r.hashed blockSizeTokens maxPrefixBlocks sum64 := by
  unfold InferenceRequest.hashed
  split
  · rename_i hnil
    exact absurd hnil h
  · exact .head _

/-- **A hash stands for its blocks and for the text of model and salt.** -/
theorem hash_eq_iff {i : Nat} (h : hashPrompt sum64 (some r) blockSizeTokens maxPrefixBlocks = some res)
    (h' : hashPrompt sum64 (some r') blockSizeTokens maxPrefixBlocks = some res')
    (hcf : CollisionFree sum64 (r.hashed blockSizeTokens maxPrefixBlocks sum64 ++
      r'.hashed blockSizeTokens maxPrefixBlocks sum64))
    (hi : i < res.length) (hi' : i < res'.length) :
    res[i]? = res'[i]? ↔ seedText r.targetModel r.cacheSalt = seedText r'.targetModel r'.cacheSalt ∧
      (r.promptBlocks blockSizeTokens maxPrefixBlocks).take (i + 1) =
        (r'.promptBlocks blockSizeTokens maxPrefixBlocks).take (i + 1) := by
  have hres := hashPrompt_eq_chain h
  have hres' := hashPrompt_eq_chain h'
  subst hres hres'
  rw [length_chain] at hi hi'
  rw [chain_getElem?_eq_iff (links_injective hcf) hi hi']
  refine and_congr_left fun _ => ⟨fun heq => ?_, fun heq => congrArg sum64 heq⟩
  exact hcf _ (List.mem_append_left _ (seedText_mem_hashed (List.ne_nil_of_length_pos (Nat.zero_lt_of_lt hi)))) _
    (List.mem_append_right _ (seedText_mem_hashed (List.ne_nil_of_length_pos (Nat.zero_lt_of_lt hi')))) heq

/-- Model and salt can be told from the text they make. -/
def SaltsApart (r r' : InferenceRequest) : Prop :=
  seedText r.targetModel r.cacheSalt = seedText r'.targetModel r'.cacheSalt →
    r.targetModel = r'.targetModel ∧ r.cacheSalt = r'.cacheSalt

/-- **The hashes identify model, salt and prefix exactly if requests that have
their first block in common have their salts apart.** -/
theorem hashes_identify_prefix_iff
    (h : hashPrompt sum64 (some r) blockSizeTokens maxPrefixBlocks = some res)
    (h' : hashPrompt sum64 (some r') blockSizeTokens maxPrefixBlocks = some res')
    (hcf : CollisionFree sum64 (r.hashed blockSizeTokens maxPrefixBlocks sum64 ++
      r'.hashed blockSizeTokens maxPrefixBlocks sum64)) :
    (∀ i, i < res.length → i < res'.length →
      (res[i]? = res'[i]? ↔ r.targetModel = r'.targetModel ∧ r.cacheSalt = r'.cacheSalt ∧
        (r.promptBlocks blockSizeTokens maxPrefixBlocks).take (i + 1) =
          (r'.promptBlocks blockSizeTokens maxPrefixBlocks).take (i + 1))) ↔
    (∀ block, (r.promptBlocks blockSizeTokens maxPrefixBlocks).head? = some block →
      (r'.promptBlocks blockSizeTokens maxPrefixBlocks).head? = some block → SaltsApart r r') := by
  have hlen : res.length = (r.promptBlocks blockSizeTokens maxPrefixBlocks).length := by
    rw [hashPrompt_eq_chain h, length_chain]
  have hlen' : res'.length = (r'.promptBlocks blockSizeTokens maxPrefixBlocks).length := by
    rw [hashPrompt_eq_chain h', length_chain]
  constructor
  · intro hid block hhead hhead' htext
    obtain ⟨more, hblocks⟩ := List.head?_eq_some_iff.mp hhead
    obtain ⟨more', hblocks'⟩ := List.head?_eq_some_iff.mp hhead'
    have hi : 0 < res.length := by rw [hlen, hblocks]; exact Nat.succ_pos _
    have hi' : 0 < res'.length := by rw [hlen', hblocks']; exact Nat.succ_pos _
    have hfirst : (r.promptBlocks blockSizeTokens maxPrefixBlocks).take (0 + 1) =
        (r'.promptBlocks blockSizeTokens maxPrefixBlocks).take (0 + 1) := by
      rw [hblocks, hblocks']
      rfl
    obtain ⟨hmodel, hsalt, -⟩ := (hid 0 hi hi').mp ((hash_eq_iff h h' hcf hi hi').mpr ⟨htext, hfirst⟩)
    exact ⟨hmodel, hsalt⟩
  · intro hapart i hi hi'
    rw [hash_eq_iff h h' hcf hi hi']
    constructor
    · rintro ⟨htext, htake⟩
      have hhead : (r.promptBlocks blockSizeTokens maxPrefixBlocks).head? =
          (r'.promptBlocks blockSizeTokens maxPrefixBlocks).head? := by
        have := congrArg List.head? htake
        simpa only [List.head?_take, Nat.add_eq_zero_iff, Nat.succ_ne_self, and_false, if_false] using this
      obtain ⟨block, more, hblocks⟩ : ∃ block more, r.promptBlocks blockSizeTokens maxPrefixBlocks = block :: more :=
        List.exists_cons_of_length_pos (hlen ▸ Nat.zero_lt_of_lt hi)
      have hblock : (r.promptBlocks blockSizeTokens maxPrefixBlocks).head? = some block := by
        rw [hblocks]
        rfl
      obtain ⟨hmodel, hsalt⟩ := hapart block hblock (hhead ▸ hblock) htext
      exact ⟨hmodel, hsalt, htake⟩
    · rintro ⟨hmodel, hsalt, htake⟩
      exact ⟨by rw [hmodel, hsalt], htake⟩

end Hashing

/-- A completion request. -/
def sampleRequest (targetModel cacheSalt prompt : String) : InferenceRequest :=
  { targetModel := str targetModel
    body := some { completions := some { prompt := ⟨str prompt, []⟩, cacheSalt := str cacheSalt } } }

/-- **A salt that takes over a part of the model's name gives the same hashes**,
whatever the hash function. -/
theorem salt_shift_same_hashes :
    (sampleRequest "llama2" "-x" "hi there").targetModel ≠ (sampleRequest "llama" "2-x" "hi there").targetModel ∧
    ∀ sum64, ∃ hash hash',
      hashPrompt sum64 (some (sampleRequest "llama2" "-x" "hi there")) 1 256 = some [hash, hash'] ∧
      hashPrompt sum64 (some (sampleRequest "llama" "2-x" "hi there")) 1 256 = some [hash, hash'] :=
  ⟨by decide, fun _ => ⟨_, _, rfl, rfl⟩⟩

/-- A hash for the sample: it tells texts of its two requests apart. -/
def sampleSum (b : Bytes) : BlockHash := b.foldl (fun h x => h * 257 + UInt64.ofNat x.val + 1) 7

/-- Two models without a salt. -/
theorem hashes_identify_prefix_iff_of_models :
    ∃ res res', hashPrompt sampleSum (some (sampleRequest "llama" "" "hi there")) 1 256 = some res ∧
      hashPrompt sampleSum (some (sampleRequest "qwen" "" "hi there")) 1 256 = some res' ∧
      res.length = 2 ∧ res'.length = 2 ∧ res[0]? ≠ res'[0]? := by
  obtain ⟨res, hres⟩ : ∃ res, hashPrompt sampleSum (some (sampleRequest "llama" "" "hi there")) 1 256 = some res :=
    ⟨_, rfl⟩
  obtain ⟨res', hres'⟩ : ∃ res, hashPrompt sampleSum (some (sampleRequest "qwen" "" "hi there")) 1 256 = some res :=
    ⟨_, rfl⟩
  have hid := (hashes_identify_prefix_iff hres hres' (by decide +kernel)).mpr (fun block _ _ => by
    intro htext
    exact absurd htext (by decide))
  have hlen : res.length = 2 := by rw [← Option.some.inj hres]; rfl
  have hlen' : res'.length = 2 := by rw [← Option.some.inj hres']; rfl
  refine ⟨res, res', hres, hres', hlen, hlen', fun heq => ?_⟩
  have hmodel := ((hid 0 (by omega) (by omega)).mp heq).1
  exact absurd hmodel (by decide)

end InferenceScheduler.PrefixCache
