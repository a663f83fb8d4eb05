/-
What the OpenAI parser reads from a response: the usage of the model's answer,
from a JSON body or from the lines of an event stream.

A JSON body is decoded into a map of values of no particular type, and the types
of the values that are read are asserted, so a value of another type is a panic.
A line of a stream is decoded into a struct first, one variable for all lines.
-/
import InferenceScheduler.Lib.JsonDecode
import InferenceScheduler.Lib.Panic
import InferenceScheduler.Lib.Text
import Mathlib.Data.List.Infix

namespace InferenceScheduler.OpenAI

open Json (NumberFormat Canonical Decoder Tree)

abbrev Fields (N : Type) := List (Text × Json N)

structure PromptTokenDetails where
  cachedTokens : Int := 0
  deriving DecidableEq, Repr

structure Usage where
  promptTokens : Int := 0
  completionTokens : Int := 0
  totalTokens : Int := 0
  promptTokenDetails : Option PromptTokenDetails := none
  deriving DecidableEq, Repr

structure ParsedResponse where
  usage : Option Usage
  deriving DecidableEq, Repr

/-- Why `json.Unmarshal` refuses a body: no JSON text, a number out of range, or no
object. -/
inductive UnmarshalError
  | invalid
  | mismatch
  deriving DecidableEq, Repr

def usageKey : Text := "usage".toList
def objectKey : Text := "object".toList
def detailsKey : Text := "prompt_token_details".toList
def cachedKey : Text := "cached_tokens".toList
def responseCompleted : Text := "response.completed".toList

section

variable {N : Type} (F : NumberFormat N) (toInt : N → Int)

/-! ## A JSON body -/

/-- The first of some fields that is there and not null. -/
def firstNonNull (usg : Fields N) : List Text → Option (Json N)
  | [] => none
  | name :: names =>
    match SortedMap.get? usg name with
    | none | some .null => firstNonNull usg names
    | some v => some v

/-- The assertion `v.(float64)` and the conversion to an `int`. -/
def assertInt : Json N → Go UnmarshalError Int
  | .number x => .ok (toInt x)
  | _ => .panic

/-- A count of tokens, by the names it is looked for under. -/
def tokenCount (usg : Fields N) (names : List Text) : Go UnmarshalError Int :=
  match firstNonNull usg names with
  | some v => assertInt toInt v
  | none => .ok 0

/-- The names of the counts of the prompt's tokens, by the type of the object. -/
def promptNames (objectType : Text) : List Text :=
  if "response".toList <+: objectType ∨ "conversation".toList <+: objectType then ["input_tokens".toList]
  else if objectType ∈ ["chat.completion".toList, "chat.completion.chunk".toList, "text_completion".toList] then
    ["prompt_tokens".toList]
  else ["input_tokens".toList, "prompt_tokens".toList]

def completionNames (objectType : Text) : List Text :=
  if "response".toList <+: objectType ∨ "conversation".toList <+: objectType then ["output_tokens".toList]
  else if objectType ∈ ["chat.completion".toList, "chat.completion.chunk".toList, "text_completion".toList] then
    ["completion_tokens".toList]
  else ["output_tokens".toList, "completion_tokens".toList]

def totalNames : List Text := ["total_tokens".toList]

def extractUsageByAPIType (usg : Fields N) (objectType : Text) : Go UnmarshalError Usage := do
  let promptTokens ← tokenCount toInt usg (promptNames objectType)
  let completionTokens ← tokenCount toInt usg (completionNames objectType)
  let totalTokens ← tokenCount toInt usg totalNames
  return { promptTokens, completionTokens, totalTokens }

/-- A count that is there is asserted even when it is null. -/
def extractDetails (usg : Fields N) : Go UnmarshalError (Option PromptTokenDetails) :=
  match firstNonNull usg [detailsKey] with
  | none => .ok none
  | some (.object details) =>
    match SortedMap.get? details cachedKey with
    | some v => do
      let cachedTokens ← assertInt toInt v
      return some { cachedTokens }
    | none => .ok none
  | some _ => .panic

/-- The field `object`, when it is a string. -/
def objectTypeOf (body : Fields N) : Text :=
  match SortedMap.get? body objectKey with
  | some (.string s) => s
  | _ => []

/-- The usage an object stands for. -/
def readUsage (usg : Fields N) (objectType : Text) : Go UnmarshalError Usage := do
  let usage ← extractUsageByAPIType toInt usg objectType
  let details ← extractDetails toInt usg
  return { usage with promptTokenDetails := details }

/-- The usage in a decoded body. -/
def usageOf (body : Fields N) : Go UnmarshalError (Option Usage) :=
  match firstNonNull body [usageKey] with
  | none => .ok none
  | some (.object usg) => do
    let usage ← readUsage toInt usg (objectTypeOf body)
    return some usage
  | some _ => .panic

def extractUsage (responseBytes : Text) : Go UnmarshalError (Option Usage) :=
  match Json.unmarshal F responseBytes with
  | none => .error .invalid
  | some .null => usageOf toInt []
  | some (.object body) => usageOf toInt body
  | some _ => .error .mismatch

/-! ## An event stream -/

structure StreamedResponse (N : Type) where
  usage : Option (Fields N) := none
  object : Text := []

/-- The variable the lines of a stream are decoded into. -/
structure StreamResponse (N : Type) where
  usage : Option Usage := none
  response : StreamedResponse N := {}
  type : Text := []

def decodeDetails : Decoder PromptTokenDetails := .struct
  [(cachedKey, .part (·.cachedTokens) (fun d n => { d with cachedTokens := n }) .int)]

def decodeUsage : Decoder Usage := .struct
  [("prompt_tokens".toList, .part (·.promptTokens) (fun u n => { u with promptTokens := n }) .int),
    ("completion_tokens".toList, .part (·.completionTokens) (fun u n => { u with completionTokens := n }) .int),
    ("total_tokens".toList, .part (·.totalTokens) (fun u n => { u with totalTokens := n }) .int),
    (detailsKey,
      .part (·.promptTokenDetails) (fun u d => { u with promptTokenDetails := d }) (.pointer {} decodeDetails))]

def decodeResponse : Decoder (StreamedResponse N) := .struct
  [(usageKey, .part (·.usage) (fun r m => { r with usage := m }) (.map F)),
    (objectKey, .part (·.object) (fun r s => { r with object := s }) .string)]

def decodeStream : Decoder (StreamResponse N) := .struct
  [(usageKey, .part (·.usage) (fun r u => { r with usage := u }) (.pointer {} decodeUsage)),
    ("response".toList, .part (·.response) (fun r s => { r with response := s }) (decodeResponse F)),
    ("type".toList, .part (·.type) (fun r s => { r with type := s }) .string)]

def streamingRespPrefix : Text := "data: ".toList

/-- The JSON text of a line: what follows the prefix, unless it ends the
stream. -/
def dataOf (line : Text) : Option Text :=
  if streamingRespPrefix <+: line then
    let content := line.drop streamingRespPrefix.length
    if content = "[DONE]".toList then none else some content
  else none

/-- The usage and the type of a completed response, printed. -/
def printCompleted (usg : Fields N) (object : Text) : Text :=
  Json.marshal F (.object [(objectKey, .string object), (usageKey, .object usg)])

/-- The loop over the lines of a chunk. -/
def extractLoop : StreamResponse N → List Text → Go UnmarshalError (Option Usage)
  | _, [] => .ok none
  | r, line :: lines =>
    match dataOf line with
    | none => extractLoop r lines
    | some content =>
      let (r, failed) := (decodeStream F).unmarshal r content
      if failed then extractLoop r lines
      else
        match r.usage with
        | some usage => .ok (some usage)
        | none =>
          match r.response.usage with
          | none => extractLoop r lines
          | some usg =>
            if r.type = responseCompleted then
              match extractUsage F toInt (printCompleted F usg r.response.object) with
              | .panic => .panic
              | .ok (some usage) => .ok (some usage)
              | .ok none | .error _ => extractLoop r lines
            else extractLoop r lines

def extractUsageStreaming (responseText : Text) : Go UnmarshalError (Option Usage) :=
  extractLoop F toInt {} (responseText.splitOn '\n')

/-! ## The parser -/

/-- Some header says that the body is an event stream. -/
def isStream (headers : List (Text × Text)) : Bool :=
  headers.any fun h => toLowerText h.1 = "content-type".toList ∧ "text/event-stream".toList <:+: toLowerText h.2

def parseStreamResponse (chunk : Text) : Go UnmarshalError (Option ParsedResponse) := do
  let usage ← extractUsageStreaming F toInt chunk
  return some { usage }

def parseResponse (body : Text) (headers : List (Text × Text)) (_endOfStream : Bool) :
    Go UnmarshalError (Option ParsedResponse) :=
  if body = [] then .ok none
  else if isStream headers then parseStreamResponse F toInt body
  else do
    let usage ← extractUsage F toInt body
    return some { usage }

end

/-! ## Usages of the expected types -/

section Typed

variable {N : Type} (F : NumberFormat N)

def isNumber : Json N → Bool
  | .number _ => true
  | _ => false

/-- The field read for a count, if one is, holds a number. -/
def CountTyped (usg : Fields N) (names : List Text) : Prop := ∀ v, firstNonNull usg names = some v → isNumber v

/-- The details, if there, are an object whose count, if there, is a number. -/
def DetailsTyped (usg : Fields N) : Prop :=
  ∀ v, firstNonNull usg [detailsKey] = some v →
    ∃ details, v = .object details ∧ ∀ w, SortedMap.get? details cachedKey = some w → isNumber w

/-- The counts that are read for a type of object, and the details. -/
structure UsageTyped (usg : Fields N) (objectType : Text) : Prop where
  prompt : CountTyped usg (promptNames objectType)
  completion : CountTyped usg (completionNames objectType)
  total : CountTyped usg totalNames
  details : DetailsTyped usg

/-- The usage of a body, if it is there, is an object of the expected types. -/
def BodyTyped (body : Fields N) : Prop :=
  ∀ v, firstNonNull body [usageKey] = some v → ∃ usg, v = .object usg ∧ UsageTyped usg (objectTypeOf body)

/-- The variable holds a usage, or a completed response with one. -/
def StreamResponse.Stops (r : StreamResponse N) : Prop :=
  r.usage.isSome ∨ r.response.usage.isSome ∧ r.type = responseCompleted

instance (r : StreamResponse N) : Decidable r.Stops := inferInstanceAs (Decidable (_ ∨ _))

/-- What the variable holds at the first data line at which the loop stops. -/
def firstStop : StreamResponse N → List Text → Option (StreamResponse N)
  | _, [] => none
  | r, content :: contents =>
    let (r, failed) := (decodeStream F).unmarshal r content
    if ¬ failed ∧ r.Stops then some r else firstStop r contents

/-- Where the loop stops there is a usage, or that of the completed response is of
the expected types. -/
def StreamTyped (chunk : Text) : Prop :=
  ∀ r usg, firstStop F {} ((chunk.splitOn '\n').filterMap dataOf) = some r → r.usage = none →
    r.response.usage = some usg → UsageTyped usg r.response.object

end Typed

/-! ## Assertions that fail -/

section

variable {N : Type} {F : NumberFormat N} {toInt : N → Int}

theorem assertInt_asserts (v : Json N) : (assertInt toInt v).Asserts (isNumber v) := by
  cases v with
  | number x => exact (Go.asserts_ok _).congr (by simp [isNumber])
  | _ => exact Go.asserts_panic.congr (by simp [isNumber])

theorem tokenCount_asserts (usg : Fields N) (names : List Text) :
    (tokenCount toInt usg names).Asserts (CountTyped usg names) := by
  unfold tokenCount CountTyped
  split
  · next v hv => exact (assertInt_asserts v).congr (by simp [hv])
  · next hv => exact (Go.asserts_ok _).congr (by simp [hv])

theorem extractUsageByAPIType_asserts (usg : Fields N) (objectType : Text) :
    (extractUsageByAPIType toInt usg objectType).Asserts
      (CountTyped usg (promptNames objectType) ∧ CountTyped usg (completionNames objectType) ∧
        CountTyped usg totalNames) :=
  (tokenCount_asserts usg _).bind fun _ => (tokenCount_asserts usg _).bind fun _ => (tokenCount_asserts usg _).map

theorem extractDetails_asserts (usg : Fields N) : (extractDetails toInt usg).Asserts (DetailsTyped usg) := by
  unfold extractDetails DetailsTyped
  split
  · next hv => exact (Go.asserts_ok _).congr (by simp [hv])
  · next details hv =>
    split
    · next w hw => exact (assertInt_asserts w).map.congr (by simp [hv, hw])
    · next hw => exact (Go.asserts_ok _).congr (by simp [hv, hw])
  · next v hobj hv =>
    refine Go.asserts_panic.congr (iff_of_false id fun h => ?_)
    obtain ⟨details, rfl, -⟩ := h v hv
    exact hobj details rfl

variable (toInt) in
theorem readUsage_asserts (usg : Fields N) (objectType : Text) :
    (readUsage toInt usg objectType).Asserts (UsageTyped usg objectType) := by
  refine ((extractUsageByAPIType_asserts usg _).bind fun _ => (extractDetails_asserts usg).map).congr ?_
  exact ⟨fun ⟨⟨hp, hc, ht⟩, hd⟩ => ⟨hp, hc, ht, hd⟩, fun h => ⟨⟨h.prompt, h.completion, h.total⟩, h.details⟩⟩

theorem usageOf_asserts (body : Fields N) : (usageOf toInt body).Asserts (BodyTyped body) := by
  unfold usageOf BodyTyped
  split
  · next hv => exact (Go.asserts_ok _).congr (by simp [hv])
  · next usg hv => exact (readUsage_asserts toInt usg _).map.congr (by simp [hv])
  · next v hobj hv =>
    refine Go.asserts_panic.congr (iff_of_false id fun h => ?_)
    obtain ⟨usg, rfl, -⟩ := h v hv
    exact hobj usg rfl

/-! ## A completed response -/

/-- A completed response as a body. -/
def completedBody (usg : Fields N) (object : Text) : Fields N :=
  [(objectKey, .string object), (usageKey, .object usg)]

theorem canonical_completedBody {usg : Fields N} (h : Canonical (.object usg)) (object : Text) :
    Canonical (.object (completedBody usg object)) := by
  refine .object ?_ ?_
  · simp only [completedBody, SortedMap.Sorted, List.pairwise_cons, List.mem_singleton, forall_eq]
    exact ⟨by decide, by simp⟩
  · simp only [completedBody, List.mem_cons, List.not_mem_nil, or_false, forall_eq_or_imp, forall_eq]
    exact ⟨.string object, h⟩

theorem usageOf_completedBody (usg : Fields N) (object : Text) :
    usageOf toInt (completedBody usg object) = (readUsage toInt usg object >>= fun usage => .ok (some usage)) := by
  have hu : firstNonNull (completedBody usg object) [usageKey] = some (.object usg) := by
    simp [firstNonNull, completedBody, SortedMap.get?, show usageKey ≠ objectKey by decide]
  have ho : objectTypeOf (completedBody usg object) = object := by simp [objectTypeOf, completedBody, SortedMap.get?]
  rw [usageOf, hu, ho]
  rfl

theorem extractUsage_printCompleted {usg : Fields N} (h : Canonical (.object usg)) (object : Text) :
    extractUsage F toInt (printCompleted F usg object) =
      (readUsage toInt usg object >>= fun usage => .ok (some usage)) := by
  have hback := Json.unmarshal_marshal (F := F) (canonical_completedBody h object)
  rw [completedBody] at hback
  rw [extractUsage, printCompleted, hback]
  exact usageOf_completedBody usg object

/-! ## The loop over the lines -/

/-- The map of a completed response has its fields in order. -/
def StreamResponse.Canonical (r : StreamResponse N) : Prop :=
  ∀ usg, r.response.usage = some usg → Json.Canonical (.object usg)

theorem keeps_decodeResponse :
    (decodeResponse F).Keeps fun r => ∀ usg, r.usage = some usg → Json.Canonical (.object usg) := by
  refine Decoder.Keeps.struct ?_
  simp only [List.mem_cons, List.not_mem_nil, or_false, forall_eq_or_imp, forall_eq]
  exact ⟨Decoder.keeps_map.part (fun _ h => h) (fun _ _ _ h => h), fun r v h => h⟩

theorem keeps_decodeStream : (decodeStream F).Keeps StreamResponse.Canonical := by
  refine Decoder.Keeps.struct ?_
  simp only [List.mem_cons, List.not_mem_nil, or_false, forall_eq_or_imp, forall_eq]
  exact ⟨fun r v h => h, keeps_decodeResponse.part (fun _ h => h) (fun _ _ _ h => h), fun r v h => h⟩

theorem extractLoop_ne_panic_iff (lines : List Text) {r : StreamResponse N} (hr : r.Canonical) :
    extractLoop F toInt r lines ≠ .panic ↔
      ∀ r' usg, firstStop F r (lines.filterMap dataOf) = some r' → r'.usage = none →
        r'.response.usage = some usg → UsageTyped usg r'.response.object := by
  induction lines generalizing r with
  | nil => simp [extractLoop, firstStop]
  | cons line lines ih =>
    rw [extractLoop]
    cases hdata : dataOf line with
    | none =>
      simp only [List.filterMap_cons, hdata]
      exact ih hr
    | some content =>
      have hnext := (keeps_decodeStream (F := F)).unmarshal hr content
      simp only [List.filterMap_cons, hdata, firstStop]
      generalize (decodeStream F).unmarshal r content = next at hnext
      obtain ⟨r, failed⟩ := next
      have ih := ih hnext
      cases failed with
      | true => simpa using ih
      | false =>
        simp only [Bool.false_eq_true, if_false, not_false_eq_true, true_and]
        cases hu : r.usage with
        | some usage =>
          simp only [StreamResponse.Stops, hu, Option.isSome_some, true_or, if_true, Option.some.injEq]
          refine iff_of_true (by simp) ?_
          rintro _ _ rfl hnone
          simp [hu] at hnone
        | none =>
          cases hm : r.response.usage with
          | none => simpa [StreamResponse.Stops, hu, hm] using ih
          | some usg =>
            by_cases htype : r.type = responseCompleted
            · -- the usage of the completed response is returned, or an assertion fails
              have hstops : r.Stops := by simp [StreamResponse.Stops, hm, htype]
              simp only [htype, if_true, hstops, extractUsage_printCompleted (hnext usg hm), Option.some.injEq]
              have hasserts := readUsage_asserts toInt usg r.response.object
              by_cases ht : UsageTyped usg r.response.object
              · obtain ⟨usage, hok⟩ := hasserts.1 ht
                rw [hok, Go.ok_bind]
                refine iff_of_true (by simp) ?_
                rintro _ usg' rfl - hm'
                obtain rfl : usg = usg' := by simpa [hm] using hm'
                exact ht
              · rw [hasserts.2 ht, Go.panic_bind]
                exact iff_of_false (by simp) fun h => ht (h r usg rfl hu hm)
            · simpa [StreamResponse.Stops, hu, hm, htype] using ih

theorem extractUsage_ne_panic_iff {body : Text} :
    extractUsage F toInt body ≠ .panic ↔
      ∀ fields, Json.unmarshal F body = some (.object fields) → BodyTyped fields := by
  unfold extractUsage
  split
  · next h => simp [h]
  · next h => simp [h, usageOf, firstNonNull]
  · next fields h => simp [h, (usageOf_asserts fields).ne_panic_iff]
  · next v _ hobj h =>
    refine iff_of_true (by simp) fun fields hf => ?_
    rw [h] at hf
    cases hf
    exact absurd rfl (hobj fields)

/-- **When a response is parsed without a panic**: its body is empty, or the
usage that is read from it is of the expected types. -/
theorem parseResponse_returns_iff (F : NumberFormat N) (toInt : N → Int) (body : Text)
    (headers : List (Text × Text)) (endOfStream : Bool) :
    parseResponse F toInt body headers endOfStream ≠ .panic ↔
      body = [] ∨ if isStream headers then StreamTyped F body
        else ∀ fields, Json.unmarshal F body = some (.object fields) → BodyTyped fields := by
  rw [parseResponse]
  by_cases hbody : body = []
  · simp [hbody]
  rw [if_neg hbody]
  simp only [hbody, false_or]
  split
  · rw [parseStreamResponse, Go.bind_pure_ne_panic_iff]
    exact extractLoop_ne_panic_iff _ nofun
  · rw [Go.bind_pure_ne_panic_iff]
    exact extractUsage_ne_panic_iff

/-- A body whose usage is a number. -/
def numberUsage : Text := "\x7b\"usage\":5\x7d".toList

theorem parseResponse_numberUsage :
    (Json.unmarshal Json.natFormat numberUsage).isSome ∧
      parseResponse Json.natFormat Int.ofNat numberUsage [] true = .panic := by
  decide +kernel

end

end InferenceScheduler.OpenAI
