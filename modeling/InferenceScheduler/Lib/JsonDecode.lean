/-
`json.Unmarshal` into a variable of a given type. Nothing is stored when the
text is no JSON text. Else the values are stored in the order of the text: what
the variable holds is kept where the text says nothing, a field is set as often
as its name occurs, and a value that does not fit saves an error while the rest
is stored all the same.
-/
import InferenceScheduler.Lib.Json

namespace InferenceScheduler.Json

/-! ## The tree of a text -/

/-- Numbers by their literals, the fields of an object in the order of the text. -/
abbrev Tree := Json Text

mutual

/-- A value at the start of a text, and what follows it. The text's length is enough fuel. -/
def scanValue : Nat → Text → Option (Tree × Text)
  | 0, _ => none
  | n + 1, s =>
    match skipSpace s with
    | 'n' :: 'u' :: 'l' :: 'l' :: s => some (.null, s)
    | 't' :: 'r' :: 'u' :: 'e' :: s => some (.bool true, s)
    | 'f' :: 'a' :: 'l' :: 's' :: 'e' :: s => some (.bool false, s)
    | '"' :: s => (unquote none s).map fun p => (.string p.1, p.2)
    | '[' :: s =>
      match skipSpace s with
      | ']' :: s => some (.array [], s)
      | s => (scanElems n s).map fun p => (.array p.1, p.2)
    | '\x7b' :: s =>
      match skipSpace s with
      | '\x7d' :: s => some (.object [], s)
      | s => (scanFields n s).map fun p => (.object p.1, p.2)
    | s =>
      let literal := s.takeWhile isNumberChar
      if isNumber literal then some (.number literal, s.dropWhile isNumberChar) else none

def scanElems : Nat → Text → Option (List Tree × Text)
  | 0, _ => none
  | n + 1, s =>
    match scanValue n s with
    | none => none
    | some (v, s) =>
      match skipSpace s with
      | ',' :: s => (scanElems n s).map fun p => (v :: p.1, p.2)
      | ']' :: s => some ([v], s)
      | _ => none

def scanFields : Nat → Text → Option (List (Text × Tree) × Text)
  | 0, _ => none
  | n + 1, s =>
    match skipSpace s with
    | '"' :: s =>
      match unquote none s with
      | none => none
      | some (k, s) =>
        match skipSpace s with
        | ':' :: s =>
          match scanValue n s with
          | none => none
          | some (v, s) =>
            match skipSpace s with
            | ',' :: s => (scanFields n s).map fun p => ((k, v) :: p.1, p.2)
            | '\x7d' :: s => some ([(k, v)], s)
            | _ => none
        | _ => none
    | _ => none

end

/-- The tree of a JSON text. -/
def scan (s : Text) : Option Tree :=
  match scanValue s.length s with
  | some (v, rest) => if skipSpace rest = [] then some v else none
  | none => none

/-! ## Values of no particular type -/

section Any

variable {N : Type} (F : NumberFormat N)

mutual

/-- The value stored for a tree, and whether an error was saved: a number that cannot
be held becomes null. -/
def ofTree : Tree → Json N × Bool
  | .null => (.null, false)
  | .bool b => (.bool b, false)
  | .number literal =>
    match F.parse literal with
    | some x => (.number x, false)
    | none => (.null, true)
  | .string s => (.string s, false)
  | .array vs => (.array (ofElems vs).1, (ofElems vs).2)
  | .object fields => (.object (ofFields [] fields).1, (ofFields [] fields).2)

def ofElems : List Tree → List (Json N) × Bool
  | [] => ([], false)
  | v :: vs => ((ofTree v).1 :: (ofElems vs).1, (ofTree v).2 || (ofElems vs).2)

/-- The fields of a text added to those of a map. -/
def ofFields (m : List (Text × Json N)) : List (Text × Tree) → List (Text × Json N) × Bool
  | [] => (m, false)
  | (k, v) :: fields =>
    ((ofFields (SortedMap.put k (ofTree v).1 m) fields).1,
      (ofTree v).2 || (ofFields (SortedMap.put k (ofTree v).1 m) fields).2)

end

variable {F}

mutual

theorem canonical_ofTree : ∀ v : Tree, Canonical (ofTree F v).1
  | .null => by simpa [ofTree] using .null
  | .bool b => by simpa [ofTree] using .bool b
  | .number literal => by
    rw [ofTree]
    split
    · exact .number _
    · exact .null
  | .string s => by simpa [ofTree] using .string s
  | .array vs => by
    rw [ofTree]
    exact .array (canonical_ofElems vs)
  | .object fields => by
    rw [ofTree]
    exact canonical_ofFields fields (.object .nil (by simp))

theorem canonical_ofElems : ∀ vs : List Tree, ∀ v ∈ (ofElems F vs).1, Canonical v
  | [] => by simp [ofElems]
  | v :: vs => by
    rw [ofElems]
    exact List.forall_mem_cons.mpr ⟨canonical_ofTree v, canonical_ofElems vs⟩

theorem canonical_ofFields : ∀ (fields : List (Text × Tree)) {m : List (Text × Json N)}, Canonical (.object m) →
    Canonical (.object (ofFields F m fields).1)
  | [], m, h => by simpa [ofFields] using h
  | (k, v) :: fields, m, h => by
    rw [ofFields]
    exact canonical_ofFields fields (h.put (canonical_ofTree v))

end

end Any

/-! ## Variables of a type -/

/-- A tree is stored in a variable; was an error saved? -/
abbrev Decoder (σ : Type) := σ → Tree → σ × Bool

/-- An optional sign and digits, within 64 bits. -/
def parseInt (literal : Text) : Option Int :=
  let (negative, digits) := match literal with
    | '-' :: s => (true, s)
    | s => (false, s)
  if digits.all Char.isDigit then
    let n : Int := Nat.ofDigitChars 10 digits 0
    let n := if negative then -n else n
    if -2 ^ 63 ≤ n ∧ n < 2 ^ 63 then some n else none
  else none

/-- ASCII characters compared as one in the name of a field. -/
def foldChar (c : Char) : Char :=
  if c = '\u017f' then 'S' else if c = '\u212a' then 'K' else c.toUpper

def foldName (name : Text) : Text := name.map foldChar

namespace Decoder

variable {σ τ : Type}

def int : Decoder Int
  | n, .null => (n, false)
  | n, .number literal =>
    match parseInt literal with
    | some n => (n, false)
    | none => (n, true)
  | n, _ => (n, true)

def string : Decoder Text
  | s, .null => (s, false)
  | _, .string s => (s, false)
  | s, _ => (s, true)

/-- Null clears it, any other value is stored behind it, in a new variable if it was nil. -/
def pointer (zero : σ) (d : Decoder σ) : Decoder (Option σ)
  | _, .null => (none, false)
  | o, v => ((d (o.getD zero) v).map some id)

/-- A map of values of no particular type. -/
def map {N : Type} (F : NumberFormat N) : Decoder (Option (List (Text × Json N)))
  | _, .null => (none, false)
  | o, .object fields => (ofFields F (o.getD []) fields).map some id
  | o, _ => (o, true)

/-- A part of a variable. -/
def part (get : σ → τ) (set : σ → τ → σ) (d : Decoder τ) : Decoder σ := fun s v => (d (get s) v).map (set s) id

/-- One field of an object, stored where its name belongs. -/
def field (fields : List (Text × Decoder σ)) (r : σ × Bool) (kv : Text × Tree) : σ × Bool :=
  match fields.find? fun f => foldName f.1 = foldName kv.1 with
  | some f => ((f.2 r.1 kv.2).1, r.2 || (f.2 r.1 kv.2).2)
  | none => r

/-- A struct, by the names of its fields. -/
def struct (fields : List (Text × Decoder σ)) : Decoder σ
  | s, .null => (s, false)
  | s, .object kvs => kvs.foldl (field fields) (s, false)
  | s, _ => (s, true)

/-- `json.Unmarshal` into a variable that holds `s`. -/
def unmarshal (d : Decoder σ) (s : σ) (text : Text) : σ × Bool :=
  match scan text with
  | some v => d s v
  | none => (s, true)

/-- What holds of the variable before holds of it after. -/
def Keeps (P : σ → Prop) (d : Decoder σ) : Prop := ∀ s v, P s → P (d s v).1

variable {P : σ → Prop}

theorem Keeps.part {get : σ → τ} {set : σ → τ → σ} {d : Decoder τ} {Q : τ → Prop} (hd : Keeps Q d)
    (hget : ∀ s, P s → Q (get s)) (hset : ∀ s t, P s → Q t → P (set s t)) : Keeps P (part get set d) :=
  fun s v hs => hset _ _ hs (hd _ v (hget s hs))

variable {fields : List (Text × Decoder σ)}

theorem Keeps.foldl_field (h : ∀ f ∈ fields, Keeps P f.2) :
    ∀ (kvs : List (Text × Tree)) (r : σ × Bool), P r.1 → P (kvs.foldl (field fields) r).1
  | [], _, hr => hr
  | kv :: kvs, r, hr => by
    refine foldl_field h kvs _ ?_
    unfold field
    split
    · next f hf => exact h f (List.mem_of_find?_eq_some hf) _ _ hr
    · exact hr

/-- **A struct's decoder keeps what the decoders of its fields keep.** -/
theorem Keeps.struct (h : ∀ f ∈ fields, Keeps P f.2) : Keeps P (struct fields) := by
  intro s v hs
  cases v with
  | object kvs => exact foldl_field h kvs _ hs
  | _ => exact hs

theorem Keeps.unmarshal {d : Decoder σ} (h : Keeps P d) {s : σ} (hs : P s) (text : Text) :
    P (d.unmarshal s text).1 := by
  unfold Decoder.unmarshal
  split
  · exact h _ _ hs
  · exact hs

theorem keeps_map {N : Type} {F : NumberFormat N} :
    Keeps (fun o => ∀ m, o = some m → Canonical (.object m)) (map F) := by
  intro o v ho m hm
  cases v with
  | null => cases hm
  | object fields =>
    cases hm
    refine canonical_ofFields fields ?_
    cases o with
    | none => exact .object .nil (by simp)
    | some m => exact ho m rfl
  | _ => exact ho m hm

end Decoder

end InferenceScheduler.Json
