/-
The inputs of a request that come in several forms: `Prompt`, `EmbeddingsInput`
and `Content` (`framework/interface/requesthandling/types.go`), read from a tree
of JSON values and written as one. `Prompt.MarshalJSON` has no case for token
IDs, and `EmbeddingsInput` has no `MarshalJSON`: it is written as the struct it
is, which its own `UnmarshalJSON` does not accept.
-/
import InferenceScheduler.Lib.JsonDecode
import InferenceScheduler.Types

namespace InferenceScheduler.RequestInput

open Json (NumberFormat Decoder Tree natFormat ofElems ofTree)

variable {N : Type} (F : NumberFormat N) (toUint32 : N → Option Nat)

/-! ## Prompts and embeddings inputs -/

/-- `Prompt` and `EmbeddingsInput` alike; a nil slice is `none`. -/
structure Input where
  raw : Text := []
  strings : Option (List Text) := none
  tokenIDs : Option (List Nat) := none
  deriving DecidableEq, Repr

def stringsOf (errorPrefix : String) : List (Json N) → Except GoError (List Text)
  | [] => .ok []
  | .string s :: vs => (stringsOf errorPrefix vs).map (s :: ·)
  | _ :: _ => .error (.errorf (errorPrefix ++ ": mixed types in array") [])

/-- `toUint32` gives the number whose float is equal, if there is one. -/
def tokenIDsOf (errorPrefix : String) : List (Json N) → Except GoError (List Nat)
  | [] => .ok []
  | .number flt :: vs =>
    match toUint32 flt with
    | none => .error (.errorf (errorPrefix ++ ": floating-point number %f is not a valid token ID") [])
    | some n => (tokenIDsOf errorPrefix vs).map (n :: ·)
  | _ :: _ => .error (.errorf (errorPrefix ++ ": mixed types in array") [])

def parseArrayInput (v : List (Json N)) (errorPrefix : String) : Except GoError Input :=
  match v with
  | [] => .ok {}
  | .string _ :: _ => (stringsOf errorPrefix v).map fun strings => { strings := some strings }
  | .number _ :: _ => (tokenIDsOf toUint32 errorPrefix v).map fun tokenIDs => { tokenIDs := some tokenIDs }
  | _ :: _ => .error (.errorf (errorPrefix ++ ": unsupported array element type") [])

/-- `UnmarshalJSON` of both types. -/
def unmarshalInput (errorPrefix : String) (data : Tree) : Except GoError Input :=
  match ofTree F data with
  | (_, true) => .error (.foreign "json" [])
  | (.string v, false) => .ok { raw := v }
  | (.array v, false) => parseArrayInput toUint32 v errorPrefix
  | (_, false) => .error (.errorf (errorPrefix ++ ": must be a string or an array") [])

def Prompt.unmarshalJSON (data : Tree) : Except GoError Input := unmarshalInput F toUint32 "prompt" data

def EmbeddingsInput.unmarshalJSON (data : Tree) : Except GoError Input := unmarshalInput F toUint32 "embeddings input" data

def stringArray (strings : List Text) : Tree := .array (strings.map .string)

def Prompt.marshalJSON (p : Input) : Tree :=
  if p.raw ≠ [] then .string p.raw
  else
    match p.strings with
    | some strings => stringArray strings
    | none => .string []

/-- What `json.Marshal` makes of the struct. -/
def EmbeddingsInput.marshal (e : Input) : Tree :=
  .object [("Raw".toList, .string e.raw), ("Strings".toList, (e.strings.map stringArray).getD .null),
    ("TokenIDs".toList, (e.tokenIDs.map fun ids => .array (ids.map fun n => .number (Nat.toDigits 10 n))).getD .null)]

/-- A prompt of token IDs. -/
def TokenArray (data : Tree) : Prop := ∃ literal rest, data = .array (.number literal :: rest)

variable {F toUint32}

theorem ofTree_stringArray (strings : List Text) :
    ofTree F (stringArray strings) = (.array (strings.map .string), false) := by
  have h : ofElems F (strings.map .string) = (strings.map .string, false) := by
    induction strings with
    | nil => rfl
    | cons s strings ih => simp [ofElems, ofTree, ih]
  simp [stringArray, ofTree, h]

theorem stringsOf_strings (errorPrefix : String) (strings : List Text) :
    stringsOf errorPrefix (strings.map fun s => (.string s : Json N)) = .ok strings := by
  induction strings with
  | nil => rfl
  | cons s strings ih => simp [stringsOf, ih, Except.map]

variable {errorPrefix : String} {p : Input}

/-- A list with a string in front is read as strings, if it is accepted. -/
theorem exists_strings {s : Text} {vs : List (Json N)}
    (h : parseArrayInput toUint32 (.string s :: vs) errorPrefix = .ok p) :
    ∃ strings, p = { strings := some (s :: strings) } := by
  simp only [parseArrayInput, stringsOf] at h
  cases hs : stringsOf errorPrefix vs with
  | error e => simp [hs, Except.map] at h
  | ok strings =>
    simp only [hs, Except.map, Except.ok.injEq] at h
    exact ⟨strings, h.symm⟩

theorem exists_tokenIDs {x : N} {vs : List (Json N)}
    (h : parseArrayInput toUint32 (.number x :: vs) errorPrefix = .ok p) :
    ∃ n tokenIDs, p = { tokenIDs := some (n :: tokenIDs) } := by
  simp only [parseArrayInput, tokenIDsOf] at h
  cases hx : toUint32 x with
  | none => simp [hx, Except.map] at h
  | some n =>
    cases hs : tokenIDsOf toUint32 errorPrefix vs with
    | error e => simp [hx, hs, Except.map] at h
    | ok tokenIDs =>
      simp only [hx, hs, Except.map, Except.ok.injEq] at h
      exact ⟨n, tokenIDs, h.symm⟩

variable {data : Tree}

/-- **The forms an accepted value can have.** -/
theorem unmarshalInput_cases (h : unmarshalInput F toUint32 errorPrefix data = .ok p) :
    ((∃ raw, p = { raw }) ∧ ¬ TokenArray data) ∨
      ((∃ s strings, p = { strings := some (s :: strings) }) ∧ ¬ TokenArray data) ∨
      ((∃ n tokenIDs, p = { tokenIDs := some (n :: tokenIDs) }) ∧ TokenArray data) := by
  have hnot : ∀ {w : Tree} {ws : List Tree}, (∀ literal, w ≠ .number literal) → ¬ TokenArray (.array (w :: ws)) := by
    rintro w ws hw ⟨literal, rest, he⟩
    injection he with he
    injection he with he
    exact hw literal he
  cases data with
  | null | bool => simp [unmarshalInput, ofTree] at h
  | object fields =>
    simp only [unmarshalInput, ofTree] at h
    cases hfailed : (Json.ofFields F [] fields).2 <;> simp [hfailed] at h
  | number literal =>
    unfold unmarshalInput ofTree at h
    cases hp : F.parse literal <;> simp [hp] at h
  | string s =>
    simp only [unmarshalInput, ofTree, Except.ok.injEq] at h
    exact .inl ⟨⟨s, h.symm⟩, by rintro ⟨_, _, he⟩; cases he⟩
  | array vs =>
    simp only [unmarshalInput, ofTree] at h
    cases hfailed : (ofElems F vs).2 with
    | true => simp [hfailed] at h
    | false =>
      simp only [hfailed] at h
      cases vs with
      | nil =>
        simp only [ofElems, parseArrayInput, Except.ok.injEq] at h
        exact .inl ⟨⟨[], h.symm⟩, by rintro ⟨_, _, he⟩; cases he⟩
      | cons w ws =>
        cases w with
        | null | bool | array | object => simp [ofElems, ofTree, parseArrayInput] at h
        | string s =>
          simp only [ofElems, ofTree] at h
          obtain ⟨strings, hs⟩ := exists_strings h
          exact .inr (.inl ⟨⟨s, strings, hs⟩, hnot (by simp)⟩)
        | number literal =>
          cases hx : F.parse literal with
          | none => simp [ofElems, ofTree, hx] at hfailed
          | some x =>
            simp only [ofElems, ofTree, hx] at h
            exact .inr (.inr ⟨exists_tokenIDs h, literal, ws, rfl⟩)

theorem prompt_round_trip_iff (h : Prompt.unmarshalJSON F toUint32 data = .ok p) :
    Prompt.unmarshalJSON F toUint32 (Prompt.marshalJSON p) = .ok p ↔ ¬ TokenArray data := by
  rcases unmarshalInput_cases h with ⟨⟨raw, rfl⟩, hnot⟩ | ⟨⟨s, strings, rfl⟩, hnot⟩ | ⟨⟨n, tokenIDs, rfl⟩, htoken⟩
  · refine iff_of_true ?_ hnot
    by_cases hraw : raw = []
    · subst hraw
      rfl
    · simp [Prompt.marshalJSON, hraw, Prompt.unmarshalJSON, unmarshalInput, ofTree]
  · refine iff_of_true ?_ hnot
    simp only [Prompt.marshalJSON, ne_eq, not_true_eq_false, if_false, Prompt.unmarshalJSON, unmarshalInput,
      ofTree_stringArray]
    have hs := stringsOf_strings (N := N) "prompt" (s :: strings)
    rw [List.map_cons] at hs
    simp only [List.map_cons, parseArrayInput, hs, Except.map]
  · refine iff_of_false ?_ (not_not.mpr htoken)
    simp [Prompt.marshalJSON, Prompt.unmarshalJSON, unmarshalInput, ofTree]

theorem embeddings_not_round_trip (e : Input) :
    EmbeddingsInput.unmarshalJSON F toUint32 (EmbeddingsInput.marshal e) ≠ .ok e := by
  unfold EmbeddingsInput.unmarshalJSON EmbeddingsInput.marshal unmarshalInput
  rw [ofTree]
  split
  · exact nofun
  · next he => cases congrArg Prod.fst he
  · next he => cases congrArg Prod.fst he
  · exact nofun

/-! ## Contents -/

structure ImageBlock where
  url : Text := []
  deriving DecidableEq, Repr

structure AudioBlock where
  data : Text := []
  format : Text := []
  deriving DecidableEq, Repr

structure VideoBlock where
  url : Text := []
  deriving DecidableEq, Repr

structure ContentBlock where
  type : Text := []
  text : Text := []
  imageURL : ImageBlock := {}
  inputAudio : AudioBlock := {}
  videoURL : VideoBlock := {}
  deriving DecidableEq, Repr

structure Content where
  raw : Text := []
  structured : Option (List ContentBlock) := none
  deriving DecidableEq, Repr

def decodeImage : Decoder ImageBlock := .struct [("url".toList, .part (·.url) (fun b s => { b with url := s }) .string)]

def decodeAudio : Decoder AudioBlock := .struct
  [("data".toList, .part (·.data) (fun b s => { b with data := s }) .string),
    ("format".toList, .part (·.format) (fun b s => { b with format := s }) .string)]

def decodeVideo : Decoder VideoBlock := .struct [("url".toList, .part (·.url) (fun b s => { b with url := s }) .string)]

def decodeBlock : Decoder ContentBlock := .struct
  [("type".toList, .part (·.type) (fun b s => { b with type := s }) .string),
    ("text".toList, .part (·.text) (fun b s => { b with text := s }) .string),
    ("image_url".toList, .part (·.imageURL) (fun b i => { b with imageURL := i }) decodeImage),
    ("input_audio".toList, .part (·.inputAudio) (fun b a => { b with inputAudio := a }) decodeAudio),
    ("video_url".toList, .part (·.videoURL) (fun b v => { b with videoURL := v }) decodeVideo)]

/-- A slice that was nil: the elements are decoded into new variables. -/
def decodeBlocks : Tree → List ContentBlock × Bool
  | .array vs => (vs.map fun v => (decodeBlock {} v).1, vs.any fun v => (decodeBlock {} v).2)
  | _ => ([], true)

def Content.unmarshalJSON (data : Tree) : Except GoError Content :=
  match Decoder.string [] data with
  | (str, false) => .ok { raw := str }
  | (_, true) =>
    match decodeBlocks data with
    | (blocks, false) => .ok { structured := some blocks }
    | (_, true) => .error (.sentinel "content format not supported")

/-- A string field with `omitempty`. -/
def omitEmpty (name : String) (s : Text) : List (Text × Tree) := if s = [] then [] else [(name.toList, .string s)]

def ContentBlock.marshal (b : ContentBlock) : Tree :=
  .object ([("type".toList, .string b.type)] ++ omitEmpty "text" b.text ++
    [("image_url".toList, .object (omitEmpty "url" b.imageURL.url)),
      ("input_audio".toList, .object (omitEmpty "data" b.inputAudio.data ++ omitEmpty "format" b.inputAudio.format)),
      ("video_url".toList, .object (omitEmpty "url" b.videoURL.url))])

def Content.marshalJSON (c : Content) : Tree :=
  if c.raw ≠ [] then .string c.raw
  else
    match c.structured with
    | some blocks => .array (blocks.map ContentBlock.marshal)
    | none => .string []

theorem decodeBlock_marshal (b : ContentBlock) : decodeBlock {} b.marshal = (b, false) := by
  obtain ⟨type, text, ⟨imageURL⟩, ⟨data, format⟩, ⟨videoURL⟩⟩ := b
  unfold ContentBlock.marshal omitEmpty
  by_cases h₁ : text = [] <;> by_cases h₂ : imageURL = [] <;> by_cases h₃ : data = [] <;>
    by_cases h₄ : format = [] <;> by_cases h₅ : videoURL = [] <;>
    simp only [h₁, h₂, h₃, h₄, h₅, if_true, if_false] <;> rfl

theorem content_round_trip {c : Content} (h : Content.unmarshalJSON data = .ok c) :
    Content.unmarshalJSON (Content.marshalJSON c) = .ok c := by
  have hraw : ∀ raw : Text, Content.unmarshalJSON (Content.marshalJSON { raw }) = .ok { raw } := by
    intro raw
    by_cases hr : raw = []
    · subst hr
      rfl
    · simp [Content.marshalJSON, hr, Content.unmarshalJSON, Decoder.string]
  unfold Content.unmarshalJSON at h
  split at h
  · cases h
    exact hraw _
  · split at h
    · next blocks _ =>
      cases h
      have hmap : (blocks.map ContentBlock.marshal).map (fun v => (decodeBlock {} v).1) = blocks := by
        rw [List.map_map]
        simp [Function.comp_def, decodeBlock_marshal]
      have hany : (blocks.map ContentBlock.marshal).any (fun v => (decodeBlock {} v).2) = false := by
        simp [decodeBlock_marshal]
      simp only [Content.marshalJSON, ne_eq, not_true_eq_false, if_false, Content.unmarshalJSON, Decoder.string,
        decodeBlocks, hmap, hany]
    · cases h

/-- **Which inputs survive a round trip**: of the prompts those that are no token
arrays, no embeddings input, and every content. -/
theorem request_input_round_trip_iff (F : NumberFormat N) (toUint32 : N → Option Nat) (data : Tree) :
    (∀ p, Prompt.unmarshalJSON F toUint32 data = .ok p →
      (Prompt.unmarshalJSON F toUint32 (Prompt.marshalJSON p) = .ok p ↔ ¬ TokenArray data)) ∧
    (∀ e, EmbeddingsInput.unmarshalJSON F toUint32 data = .ok e →
      EmbeddingsInput.unmarshalJSON F toUint32 (EmbeddingsInput.marshal e) ≠ .ok e) ∧
    ∀ c, Content.unmarshalJSON data = .ok c → Content.unmarshalJSON (Content.marshalJSON c) = .ok c :=
  ⟨fun _ h => prompt_round_trip_iff h, fun e _ => embeddings_not_round_trip e, fun _ h => content_round_trip h⟩

/-- The prompt `[1]` comes back as the empty string, and the embeddings input
`"a"` is not accepted again. -/
theorem token_prompt_lost :
    (Prompt.unmarshalJSON natFormat some (.array [.number ['1']])).toOption = some { tokenIDs := some [1] } ∧
      (Prompt.unmarshalJSON natFormat some (Prompt.marshalJSON { tokenIDs := some [1] })).toOption = some {} ∧
      (EmbeddingsInput.unmarshalJSON natFormat some (.string ['a'])).toOption = some { raw := ['a'] } ∧
      (EmbeddingsInput.unmarshalJSON natFormat some (EmbeddingsInput.marshal { raw := ['a'] })).toOption = none := by
  decide +kernel

end InferenceScheduler.RequestInput
