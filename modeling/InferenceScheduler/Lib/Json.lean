/-
JSON as Go's `encoding/json` reads and writes it, without a given type. A text
is a list of Unicode characters. An object keeps its fields in the order of
their names, and of two fields of one name the later counts. How a number is
held and printed is a parameter (`NumberFormat`).
-/
import InferenceScheduler.Lib.SortedMap
import Mathlib.Algebra.Group.Nat.Defs
import Mathlib.Algebra.Ring.Int.Defs
import Mathlib.Data.Char
import Mathlib.Data.List.TakeWhile

namespace InferenceScheduler

abbrev Text := List Char

instance lawfulBEq_text : LawfulBEq Text := inferInstance

inductive Json (N : Type)
  | null
  | bool (b : Bool)
  | number (n : N)
  | string (s : Text)
  | array (vs : List (Json N))
  | object (fields : List (Text × Json N))

namespace Json

/-! ## Numbers -/

/-- Where the scanner stands in a number literal. -/
inductive NumberState
  | start
  | sign
  | zero
  | int
  | dot
  | fraction
  | exp
  | expSign
  | expDigits
  deriving DecidableEq, Repr

def isExp (c : Char) : Bool := c = 'e' || c = 'E'

def NumberState.next (q : NumberState) (c : Char) : Option NumberState :=
  match q with
  | .start =>
    if c = '-' then some .sign else if c = '0' then some .zero else if c.isDigit then some .int else none
  | .sign => if c = '0' then some .zero else if c.isDigit then some .int else none
  | .zero => if c = '.' then some .dot else if isExp c then some .exp else none
  | .int =>
    if c.isDigit then some .int else if c = '.' then some .dot else if isExp c then some .exp else none
  | .dot => if c.isDigit then some .fraction else none
  | .fraction => if c.isDigit then some .fraction else if isExp c then some .exp else none
  | .exp => if c = '+' ∨ c = '-' then some .expSign else if c.isDigit then some .expDigits else none
  | .expSign | .expDigits => if c.isDigit then some .expDigits else none

/-- The literal may end here. -/
def NumberState.accepts : NumberState → Bool
  | .zero | .int | .fraction | .expDigits => true
  | _ => false

def isNumberFrom (q : NumberState) : Text → Bool
  | [] => q.accepts
  | c :: s =>
    match q.next c with
    | some q => isNumberFrom q s
    | none => false

/-- The number literals of JSON. -/
def isNumber (s : Text) : Bool := isNumberFrom .start s

/-- How numbers are read from literals and printed. -/
structure NumberFormat (N : Type) where
  parse : Text → Option N
  format : N → Text
  /-- An integer of the program, stored in a value. -/
  ofNat : Nat → N
  isNumber_format : ∀ n, isNumber (format n)
  parse_format : ∀ n, parse (format n) = some n

def isNumberChar (c : Char) : Bool := c.isDigit || c = '-' || c = '+' || c = '.' || isExp c

/-! ## Strings -/

def hexDigit (n : Nat) : Char := Char.ofNat (if n < 10 then '0'.toNat + n else 'a'.toNat + (n - 10))

def hexValue (c : Char) : Option Nat :=
  if c.isDigit then some (c.toNat - '0'.toNat)
  else if 'a' ≤ c ∧ c ≤ 'f' then some (c.toNat - 'a'.toNat + 10)
  else if 'A' ≤ c ∧ c ≤ 'F' then some (c.toNat - 'A'.toNat + 10)
  else none

/-- Four hexadecimal digits. -/
def hex4 (n : Nat) : Text :=
  [hexDigit (n / 4096 % 16), hexDigit (n / 256 % 16), hexDigit (n / 16 % 16), hexDigit (n % 16)]

def hexValue4 (a b c d : Char) : Option Nat :=
  match hexValue a, hexValue b, hexValue c, hexValue d with
  | some a, some b, some c, some d => some (4096 * a + 256 * b + 16 * c + d)
  | _, _, _, _ => none

/-- Written as `\u` and four digits: control characters, those with a meaning in
HTML, and two line separators. -/
def isEscaped (c : Char) : Bool :=
  c.toNat < 0x20 || c = '<' || c = '>' || c = '&' || c.toNat = 0x2028 || c.toNat = 0x2029

def escape (c : Char) : Text :=
  if c = '"' then ['\\', '"']
  else if c = '\\' then ['\\', '\\']
  else if c = '\x08' then ['\\', 'b']
  else if c = '\x0c' then ['\\', 'f']
  else if c = '\n' then ['\\', 'n']
  else if c = '\r' then ['\\', 'r']
  else if c = '\t' then ['\\', 't']
  else if isEscaped c then '\\' :: 'u' :: hex4 c.toNat
  else [c]

def quote (s : Text) : Text := '"' :: s.flatMap escape ++ ['"']

/-- The escapes of one character. -/
def unescape (c : Char) : Option Char :=
  if c = '"' ∨ c = '\\' ∨ c = '/' then some c
  else if c = 'b' then some '\x08'
  else if c = 'f' then some '\x0c'
  else if c = 'n' then some '\n'
  else if c = 'r' then some '\r'
  else if c = 't' then some '\t'
  else none

def isHighSurrogate (u : Nat) : Bool := 0xd800 ≤ u && u < 0xdc00
def isLowSurrogate (u : Nat) : Bool := 0xdc00 ≤ u && u < 0xe000

/-- What a half of a surrogate pair stands for without the other. -/
def replacement : Char := '�'

def ofUnit (u : Nat) : Char := if isLowSurrogate u then replacement else Char.ofNat u

def emit (cs : Text) (r : Option (Text × Text)) : Option (Text × Text) := r.map fun p => (cs ++ p.1, p.2)

/-- The rest of a string literal after its quote, and what follows it; `high` is the
first half of a surrogate pair. -/
def unquote (high : Option Nat) : Text → Option (Text × Text)
  | [] => none
  | c :: s =>
    let pending := if high.isSome then [replacement] else []
    if c = '"' then some (pending, s)
    else if c = '\\' then
      match s with
      | 'u' :: a :: b :: c :: d :: s =>
        match hexValue4 a b c d with
        | none => none
        | some u =>
          match high with
          | some h =>
            if isLowSurrogate u then
              emit [Char.ofNat (0x10000 + (h - 0xd800) * 0x400 + (u - 0xdc00))] (unquote none s)
            else if isHighSurrogate u then emit pending (unquote (some u) s)
            else emit (pending ++ [ofUnit u]) (unquote none s)
          | none => if isHighSurrogate u then unquote (some u) s else emit [ofUnit u] (unquote none s)
      | e :: s =>
        match unescape e with
        | some c => emit (pending ++ [c]) (unquote none s)
        | none => none
      | [] => none
    else if c.toNat < 0x20 then none
    else emit (pending ++ [c]) (unquote none s)

/-! ## Values -/

def isSpace (c : Char) : Bool := c = ' ' || c = '\t' || c = '\r' || c = '\n'

def skipSpace (s : Text) : Text := s.dropWhile isSpace

section

variable {N : Type} (F : NumberFormat N)

mutual

/-- `json.Marshal`. -/
def marshal : Json N → Text
  | .null => ['n', 'u', 'l', 'l']
  | .bool true => ['t', 'r', 'u', 'e']
  | .bool false => ['f', 'a', 'l', 's', 'e']
  | .number n => F.format n
  | .string s => quote s
  | .array vs => '[' :: marshalElems [] vs
  | .object fields => '\x7b' :: marshalFields [] fields

def marshalElems (sep : Text) : List (Json N) → Text
  | [] => [']']
  | v :: vs => sep ++ marshal v ++ marshalElems [','] vs

def marshalFields (sep : Text) : List (Text × Json N) → Text
  | [] => ['\x7d']
  | (k, v) :: fields => sep ++ quote k ++ ':' :: marshal v ++ marshalFields [','] fields

end

mutual

/-- A value at the start of a text, and what follows it. The text's length is enough fuel. -/
def parseValue : Nat → Text → Option (Json N × Text)
  | 0, _ => none
  | n + 1, s =>
    match skipSpace s with
    | 'n' :: 'u' :: 'l' :: 'l' :: s => some (.null, s)
    | 't' :: 'r' :: 'u' :: 'e' :: s => some (.bool true, s)
    | 'f' :: 'a' :: 'l' :: 's' :: 'e' :: s => some (.bool false, s)
    | '"' :: s => (unquote none s).map fun p => (.string p.1, p.2)
    | '[' :: s =>
      match skipSpace s with
      | ']' :: s => some (.array [], s)
      | s => (parseElems n s).map fun p => (.array p.1, p.2)
    | '\x7b' :: s =>
      match skipSpace s with
      | '\x7d' :: s => some (.object [], s)
      | s => (parseFields n [] s).map fun p => (.object p.1, p.2)
    | s =>
      let literal := s.takeWhile isNumberChar
      if isNumber literal then (F.parse literal).map fun x => (.number x, s.dropWhile isNumberChar) else none

def parseElems : Nat → Text → Option (List (Json N) × Text)
  | 0, _ => none
  | n + 1, s =>
    match parseValue n s with
    | none => none
    | some (v, s) =>
      match skipSpace s with
      | ',' :: s => (parseElems n s).map fun p => (v :: p.1, p.2)
      | ']' :: s => some ([v], s)
      | _ => none

/-- The fields of a non-empty object after its brace; `fields` are those
before. -/
def parseFields : Nat → List (Text × Json N) → Text → Option (List (Text × Json N) × Text)
  | 0, _, _ => none
  | n + 1, fields, s =>
    match skipSpace s with
    | '"' :: s =>
      match unquote none s with
      | none => none
      | some (k, s) =>
        match skipSpace s with
        | ':' :: s =>
          match parseValue n s with
          | none => none
          | some (v, s) =>
            match skipSpace s with
            | ',' :: s => parseFields n (SortedMap.put k v fields) s
            | '\x7d' :: s => some (SortedMap.put k v fields, s)
            | _ => none
        | _ => none
    | _ => none

end

/-- `json.Unmarshal` into a variable of no particular type. -/
def unmarshal (s : Text) : Option (Json N) :=
  match parseValue F s.length s with
  | some (v, rest) => if skipSpace rest = [] then some v else none
  | none => none

end

/-! ## Reading back -/

variable {c : Char}

theorem isNumberChar_of_next {q q' : NumberState} (h : q.next c = some q') : isNumberChar c := by
  have hz : c = '0' → c.isDigit := fun h => h ▸ rfl
  unfold isNumberChar
  cases q <;> simp only [NumberState.next] at h <;> split_ifs at h <;> grind

theorem isNumberChar_of_isNumberFrom : ∀ {s : Text} {q : NumberState}, isNumberFrom q s → ∀ c ∈ s, isNumberChar c
  | [], _, _ => by simp
  | c :: s, q, h => by
    rw [isNumberFrom] at h
    split at h
    · rename_i q' hq
      exact List.forall_mem_cons.mpr ⟨isNumberChar_of_next hq, isNumberChar_of_isNumberFrom h⟩
    · cases h

theorem head_of_isNumber {s : Text} (h : isNumber s) : ∃ c t, s = c :: t ∧ (c = '-' ∨ c.isDigit) := by
  cases s with
  | nil => cases h
  | cons c s =>
    refine ⟨c, s, rfl, ?_⟩
    by_contra hn
    obtain ⟨hm, hd⟩ := not_or.mp hn
    have hz : c ≠ '0' := fun hz => hd (hz ▸ by decide)
    simp [isNumber, isNumberFrom, NumberState.next, hm, hd, hz] at h

/-- What follows a value in a text does not go on a number. -/
def Ends (r : Text) : Prop := r.takeWhile isNumberChar = []

theorem ends_nil : Ends [] := rfl

theorem ends_cons {r : Text} (h : isNumberChar c = false) : Ends (c :: r) := by
  simp [Ends, h]

theorem Ends.dropWhile {r : Text} (h : Ends r) : r.dropWhile isNumberChar = r := by
  have := List.takeWhile_append_dropWhile (p := isNumberChar) (l := r)
  rwa [h, List.nil_append] at this

theorem hexValue_hexDigit : ∀ n < 16, hexValue (hexDigit n) = some n := by decide

theorem hexValue4_hex4 {n : Nat} (h : n < 65536) :
    hexValue4 (hexDigit (n / 4096 % 16)) (hexDigit (n / 256 % 16)) (hexDigit (n / 16 % 16)) (hexDigit (n % 16)) =
      some n := by
  have hd (m : Nat) : hexValue (hexDigit (m % 16)) = some (m % 16) := hexValue_hexDigit _ (Nat.mod_lt _ (by decide))
  simp only [hexValue4, hd, Option.some.injEq]
  omega

theorem isEscaped_toNat_lt (h : isEscaped c) : c.toNat < 0xd800 := by
  simp only [isEscaped, Bool.or_eq_true, decide_eq_true_eq] at h
  rcases h with ((((h | rfl) | rfl) | rfl) | h) | h <;> first | omega | decide

theorem unquote_escape (c : Char) (s : Text) : unquote none (escape c ++ s) = emit [c] (unquote none s) := by
  unfold escape
  split_ifs with h₁ h₂ h₃ h₄ h₅ h₆ h₇ h₈
  iterate 7
    · subst c
      simp [unquote, unescape]
  · have hlt := isEscaped_toNat_lt h₈
    have hhigh : isHighSurrogate c.toNat = false := by simp [isHighSurrogate]; omega
    have hlow : isLowSurrogate c.toNat = false := by simp [isLowSurrogate]; omega
    have hhex := hexValue4_hex4 (n := c.toNat) (by omega)
    simp [hex4, unquote, hhex, hhigh, ofUnit, hlow]
  · have h₉ : ¬c.toNat < 0x20 := fun h => h₈ (by simp [isEscaped, h])
    rw [List.singleton_append, unquote.eq_def]
    simp [h₁, h₂, h₉]

theorem unquote_quoted (s r : Text) : unquote none (s.flatMap escape ++ '"' :: r) = some (s, r) := by
  induction s with
  | nil =>
    rw [List.flatMap_nil, List.nil_append, unquote.eq_def]
    simp
  | cons c s ih => rw [List.flatMap_cons, List.append_assoc, unquote_escape, ih, emit, Option.map_some, List.singleton_append]

section

variable {N : Type} {F : NumberFormat N}

/-- The fields of every object are in the order of their names. -/
inductive Canonical : Json N → Prop
  | null : Canonical .null
  | bool (b : Bool) : Canonical (.bool b)
  | number (n : N) : Canonical (.number n)
  | string (s : Text) : Canonical (.string s)
  | array {vs : List (Json N)} (h : ∀ v ∈ vs, Canonical v) : Canonical (.array vs)
  | object {fields : List (Text × Json N)} (hs : SortedMap.Sorted fields) (h : ∀ x ∈ fields, Canonical x.2) :
    Canonical (.object fields)

variable {fields : List (Text × Json N)} {k s : Text} {v : Json N}

theorem Canonical.put (h : Canonical (.object fields))
    (hv : Canonical v) : Canonical (.object (SortedMap.put k v fields)) := by
  cases h with
  | object hs hf =>
    refine .object hs.put fun x hx => ?_
    rcases SortedMap.mem_put hx with rfl | hx
    · exact hv
    · exact hf x hx

theorem Canonical.delete (h : Canonical (.object fields)) : Canonical (.object (SortedMap.delete k fields)) := by
  cases h with
  | object hs hf => exact .object hs.delete fun x hx => hf x (SortedMap.mem_of_mem_delete hx)

theorem Canonical.get? (h : Canonical (.object fields)) (hv : SortedMap.get? fields k = some v) : Canonical v := by
  cases h with
  | object _ hf => exact hf _ (SortedMap.mem_of_get? hv)

theorem skipSpace_cons {c : Char} (h : isSpace c = false) : skipSpace (c :: s) = c :: s := by
  simp [skipSpace, h]

variable {n : Nat}

theorem parseValue_number (x : N) {r : Text} (hr : Ends r) :
    parseValue F (n + 1) (F.format x ++ r) = some (.number x, r) := by
  have hnum := F.isNumber_format x
  obtain ⟨c, t, hct, hc⟩ := head_of_isNumber hnum
  have hchars := isNumberChar_of_isNumberFrom hnum
  have htake : (F.format x ++ r).takeWhile isNumberChar = F.format x := by
    rw [List.takeWhile_append_of_pos hchars, hr, List.append_nil]
  have hdrop : (F.format x ++ r).dropWhile isNumberChar = r := by
    rw [List.dropWhile_append_of_pos hchars, hr.dropWhile]
  have hspace : skipSpace (F.format x ++ r) = F.format x ++ r := by
    rw [hct, List.cons_append]
    refine skipSpace_cons (Bool.eq_false_iff.mpr fun h => ?_)
    simp only [isSpace, Bool.or_eq_true, decide_eq_true_eq] at h
    rcases h with ((rfl | rfl) | rfl) | rfl <;> revert hc <;> decide
  rw [parseValue.eq_def]
  simp only [hspace]
  -- the first character selects the case of a number
  split
  case h_7 => simp only [htake, hdrop, hnum, if_true, F.parse_format, Option.map_some]
  all_goals
    rename_i heq
    rw [hct, List.cons_append] at heq
    injection heq with heq
    subst heq
    exact absurd hc (by decide)

theorem head_of_marshal (v : Json N) : ∃ c t, marshal F v = c :: t ∧ isSpace c = false ∧ c ≠ ']' := by
  cases v with
  | null => exact ⟨'n', _, rfl, rfl, by decide⟩
  | bool b => cases b <;> exact ⟨_, _, rfl, rfl, by decide⟩
  | number x =>
    obtain ⟨c, t, hct, hc⟩ := head_of_isNumber (F.isNumber_format x)
    refine ⟨c, t, by rw [marshal, hct], Bool.eq_false_iff.mpr fun h => ?_, ?_⟩
    · simp only [isSpace, Bool.or_eq_true, decide_eq_true_eq] at h
      rcases h with ((rfl | rfl) | rfl) | rfl <;> revert hc <;> decide
    · rintro rfl
      revert hc
      decide
  | string s => exact ⟨'"', _, rfl, rfl, by decide⟩
  | array vs => exact ⟨'[', _, rfl, rfl, by decide⟩
  | object fields => exact ⟨'\x7b', _, rfl, rfl, by decide⟩

theorem foldl_put_of_sorted {acc : List (Text × Json N)} (h : SortedMap.Sorted (acc ++ fields)) :
    fields.foldl (fun m x => SortedMap.put x.1 x.2 m) acc = acc ++ fields := by
  induction fields generalizing acc with
  | nil => simp
  | cons x fields ih =>
    have hx : ∀ y ∈ acc, y.1 < x.1 := fun y hy => (List.pairwise_append.mp h).2.2 y hy x List.mem_cons_self
    rw [List.foldl_cons, SortedMap.put_of_forall_lt hx, ih (by simpa using h)]
    simp

theorem parseValue_array {c : Char} (hc : isSpace c = false) (hb : c ≠ ']') :
    parseValue F (n + 1) ('[' :: c :: s) = (parseElems F n (c :: s)).map fun p => (.array p.1, p.2) := by
  rw [parseValue.eq_def]
  simp only [skipSpace_cons (show isSpace '[' = false from rfl), skipSpace_cons hc]
  split
  · rename_i heq
    injection heq with heq
    exact absurd heq hb
  · rfl

theorem parseValue_object :
    parseValue F (n + 1) ('\x7b' :: '"' :: s) = (parseFields F n [] ('"' :: s)).map fun p => (.object p.1, p.2) := by
  simp [parseValue, skipSpace, isSpace]

theorem parseElems_cons {t : Text} (h : parseValue F n s = some (v, t)) : parseElems F (n + 1) s =
      match skipSpace t with
      | ',' :: s => (parseElems F n s).map fun p => (v :: p.1, p.2)
      | ']' :: s => some ([v], s)
      | _ => none := by
  rw [parseElems, h]

theorem parseFields_cons {t : Text} (h : parseValue F n s = some (v, t)) :
    parseFields F (n + 1) fields (quote k ++ ':' :: s) =
      match skipSpace t with
      | ',' :: s => parseFields F n (SortedMap.put k v fields) s
      | '\x7d' :: s => some (SortedMap.put k v fields, s)
      | _ => none := by
  have hq : quote k ++ ':' :: s = '"' :: (k.flatMap escape ++ '"' :: ':' :: s) := by simp [quote]
  rw [hq, parseFields.eq_def]
  simp only [skipSpace_cons (show isSpace '"' = false from rfl), unquote_quoted,
    skipSpace_cons (show isSpace ':' = false from rfl), h]

mutual

theorem parseValue_marshal : ∀ (v : Json N), Canonical v → ∀ {n : Nat} {r : Text}, (marshal F v).length ≤ n →
    Ends r → parseValue F n (marshal F v ++ r) = some (v, r)
  | v, _, 0, r, hn, _ => by
    obtain ⟨c, t, hct, -⟩ := head_of_marshal (F := F) v
    simp [hct] at hn
  | .null, _, n + 1, r, _, _ => by simp [marshal, parseValue, skipSpace, isSpace]
  | .bool true, _, n + 1, r, _, _ => by simp [marshal, parseValue, skipSpace, isSpace]
  | .bool false, _, n + 1, r, _, _ => by simp [marshal, parseValue, skipSpace, isSpace]
  | .number x, _, n + 1, r, _, hr => by rw [marshal, parseValue_number x hr]
  | .string s, _, n + 1, r, _, _ => by
    have hq := unquote_quoted s r
    simp [marshal, quote, parseValue, skipSpace, isSpace, hq]
  | .array [], _, n + 1, r, _, _ => by simp [marshal, marshalElems, parseValue, skipSpace, isSpace]
  | .array (v :: vs), hv, n + 1, r, hn, _ => by
    cases hv with
    | array hv =>
      have ih := parseElems_marshal v vs hv (n := n) (r := r) (by simpa [marshal, marshalElems] using hn)
      obtain ⟨c, t, hct, hc, hb⟩ := head_of_marshal (F := F) v
      rw [hct] at ih
      rw [marshal, marshalElems, hct, List.nil_append]
      simp only [List.cons_append] at ih ⊢
      rw [parseValue_array hc hb, ih, Option.map_some]
  | .object [], _, n + 1, r, _, _ => by simp [marshal, marshalFields, parseValue, skipSpace, isSpace]
  | .object ((k, v) :: fields), hv, n + 1, r, hn, _ => by
    cases hv with
    | object hs hv =>
      have ih := parseFields_marshal k v fields hv [] (n := n) (r := r) (by simpa [marshal, marshalFields] using hn)
      rw [foldl_put_of_sorted (by simpa using hs), List.nil_append] at ih
      rw [marshal, marshalFields, List.nil_append, quote]
      rw [quote] at ih
      simp only [List.cons_append] at ih ⊢
      rw [parseValue_object, ih, Option.map_some]

theorem parseElems_marshal : ∀ (v : Json N) (vs : List (Json N)), (∀ w ∈ v :: vs, Canonical w) →
    ∀ {n : Nat} {r : Text}, (marshal F v ++ marshalElems F [','] vs).length ≤ n →
    parseElems F n (marshal F v ++ marshalElems F [','] vs ++ r) = some (v :: vs, r)
  | v, vs, _, 0, r, hn => by cases vs <;> simp [marshalElems] at hn
  | v, [], hv, n + 1, r, hn => by
    have hval := parseValue_marshal v (hv v List.mem_cons_self) (n := n) (r := ']' :: r)
      (by simpa [marshalElems] using hn) (ends_cons rfl)
    rw [marshalElems, List.append_assoc, List.singleton_append, parseElems_cons hval]
    simp [skipSpace, isSpace]
  | v, w :: vs, hv, n + 1, r, hn => by
    obtain ⟨hv, hvs⟩ := List.forall_mem_cons.mp hv
    simp only [marshalElems, List.length_append, List.length_cons, List.length_nil] at hn
    have hval := parseValue_marshal v hv (n := n) (r := ',' :: (marshal F w ++ marshalElems F [','] vs ++ r))
      (by omega) (ends_cons rfl)
    have ih := parseElems_marshal w vs hvs (n := n) (r := r) (by simp; omega)
    have he : marshal F v ++ marshalElems F [','] (w :: vs) ++ r =
        marshal F v ++ ',' :: (marshal F w ++ marshalElems F [','] vs ++ r) := by
      rw [marshalElems]
      simp
    rw [he, parseElems_cons hval, skipSpace_cons rfl]
    simp only [ih, Option.map_some]

theorem parseFields_marshal : ∀ (k : Text) (v : Json N) (fields : List (Text × Json N)),
    (∀ x ∈ (k, v) :: fields, Canonical x.2) → ∀ (acc : List (Text × Json N)) {n : Nat} {r : Text},
    (quote k ++ ':' :: marshal F v ++ marshalFields F [','] fields).length ≤ n →
    parseFields F n acc (quote k ++ ':' :: marshal F v ++ marshalFields F [','] fields ++ r) =
      some (((k, v) :: fields).foldl (fun m x => SortedMap.put x.1 x.2 m) acc, r)
  | k, v, fields, _, acc, 0, r, hn => by simp [quote] at hn
  | k, v, [], hv, acc, n + 1, r, hn => by
    have hval := parseValue_marshal v (hv (k, v) List.mem_cons_self) (n := n) (r := '\x7d' :: r)
      (by simp [marshalFields, quote] at hn; omega) (ends_cons rfl)
    rw [marshalFields]
    simp only [List.append_assoc, List.cons_append, List.nil_append]
    rw [parseFields_cons hval, skipSpace_cons rfl]
    rfl
  | k, v, (k', w) :: fields, hv, acc, n + 1, r, hn => by
    obtain ⟨hv, hfs⟩ := List.forall_mem_cons.mp hv
    simp only [marshalFields, List.length_append, List.length_cons, List.length_nil] at hn
    have hval := parseValue_marshal v hv (n := n)
      (r := ',' :: (quote k' ++ ':' :: marshal F w ++ marshalFields F [','] fields ++ r)) (by omega) (ends_cons rfl)
    have ih := parseFields_marshal k' w fields hfs (SortedMap.put k v acc) (n := n) (r := r) (by simp; omega)
    have he : quote k ++ ':' :: marshal F v ++ marshalFields F [','] ((k', w) :: fields) ++ r =
        quote k ++ ':' :: (marshal F v ++ ',' :: (quote k' ++ ':' :: marshal F w ++ marshalFields F [','] fields ++ r)) := by
      rw [marshalFields]
      simp
    rw [he, parseFields_cons hval, skipSpace_cons rfl]
    simp only [ih, List.foldl_cons]

end

theorem canonical_of_parse (n : Nat) :
    (∀ {s r : Text} {v : Json N}, parseValue F n s = some (v, r) → Canonical v) ∧
    (∀ {s r : Text} {vs : List (Json N)}, parseElems F n s = some (vs, r) → ∀ v ∈ vs, Canonical v) ∧
    ∀ {s r : Text} {acc fields : List (Text × Json N)}, Canonical (.object acc) →
      parseFields F n acc s = some (fields, r) → Canonical (.object fields) := by
  induction n with
  | zero => exact ⟨nofun, nofun, nofun⟩
  | succ n ih =>
    obtain ⟨ihv, ihe, ihf⟩ := ih
    refine ⟨fun {s r v} h => ?_, fun {s r vs} h => ?_, fun {s r acc fields} hacc h => ?_⟩
    · rw [parseValue.eq_def] at h
      simp only at h
      split at h
      · cases h
        exact .null
      · cases h
        exact .bool _
      · cases h
        exact .bool _
      · obtain ⟨p, -, he⟩ := Option.map_eq_some_iff.mp h
        cases he
        exact .string _
      · split at h
        · cases h
          exact .array (by simp)
        · obtain ⟨p, hp, he⟩ := Option.map_eq_some_iff.mp h
          cases he
          exact .array (ihe hp)
      · split at h
        · cases h
          exact .object .nil (by simp)
        · obtain ⟨p, hp, he⟩ := Option.map_eq_some_iff.mp h
          cases he
          exact ihf (.object .nil (by simp)) hp
      · split_ifs at h
        obtain ⟨p, -, he⟩ := Option.map_eq_some_iff.mp h
        cases he
        exact .number _
    · rw [parseElems] at h
      split at h
      · cases h
      · rename_i v t hv
        split at h
        · obtain ⟨p, hp, he⟩ := Option.map_eq_some_iff.mp h
          cases he
          exact List.forall_mem_cons.mpr ⟨ihv hv, ihe hp⟩
        · cases h
          exact List.forall_mem_cons.mpr ⟨ihv hv, by simp⟩
        · cases h
    · rw [parseFields] at h
      split at h
      · split at h
        · cases h
        · split at h
          · split at h
            · cases h
            · rename_i v t hv
              split at h
              · exact ihf (hacc.put (ihv hv)) h
              · cases h
                exact hacc.put (ihv hv)
              · cases h
          · cases h
      · cases h

theorem canonical_of_unmarshal {s : Text} {v : Json N} (h : unmarshal F s = some v) : Canonical v := by
  unfold unmarshal at h
  split at h
  · rename_i w rest hp
    split_ifs at h
    cases h
    exact (canonical_of_parse _).1 hp
  · cases h

/-- **What `Marshal` prints, `Unmarshal` reads back.** -/
theorem unmarshal_marshal {v : Json N} (hv : Canonical v) : unmarshal F (marshal F v) = some v := by
  have h := parseValue_marshal v hv (F := F) le_rfl ends_nil
  rw [List.append_nil] at h
  rw [unmarshal, h]
  rfl

end

/-! ## Natural numbers -/

theorem isNumberFrom_int : ∀ {s : Text}, (∀ c ∈ s, c.isDigit) → isNumberFrom .int s
  | [], _ => rfl
  | c :: s, h => by
    obtain ⟨hc, hs⟩ := List.forall_mem_cons.mp h
    simp [isNumberFrom, NumberState.next, hc, isNumberFrom_int hs]

theorem head_toDigits {n : Nat} (h : 0 < n) : ∃ c t, Nat.toDigits 10 n = c :: t ∧ c ≠ '0' := by
  induction n using Nat.strong_induction_on with
  | _ n ih =>
    rw [Nat.toDigits_eq_if (by decide)]
    split_ifs with hn
    · refine ⟨_, [], rfl, ?_⟩
      exact (show ∀ n < 10, 0 < n → n.digitChar ≠ '0' by decide) n hn h
    · obtain ⟨c, t, hct, hc⟩ := ih (n / 10) (by omega) (by omega)
      exact ⟨c, _, by rw [hct, List.cons_append], hc⟩

/-- The numbers of a text all of whose numbers are natural. -/
def natFormat : NumberFormat Nat where
  parse s := if s.all Char.isDigit then some (Nat.ofDigitChars 10 s 0) else none
  format := Nat.toDigits 10
  ofNat n := n
  isNumber_format n := by
    have hd : ∀ c ∈ Nat.toDigits 10 n, c.isDigit := fun c hc =>
      Nat.isDigit_of_mem_toDigits (by decide) (by decide) hc
    rcases Nat.eq_zero_or_pos n with rfl | hn
    · decide
    · obtain ⟨c, t, hct, hc⟩ := head_toDigits hn
      rw [hct] at hd ⊢
      obtain ⟨hdc, hdt⟩ := List.forall_mem_cons.mp hd
      have hm : c ≠ '-' := by
        rintro rfl
        exact absurd hdc (by decide)
      simp [isNumber, isNumberFrom, NumberState.next, hc, hm, hdc, isNumberFrom_int hdt]
  parse_format n := by
    have hd : (Nat.toDigits 10 n).all Char.isDigit := by
      rw [List.all_eq_true]
      exact fun c hc => Nat.isDigit_of_mem_toDigits (by decide) (by decide) hc
    rw [if_pos hd, Nat.ofDigitChars_ten_toDigits]

/-- The nearest number of 53 bits; of two, the one with the even last bit. -/
def round53 (n : Nat) : Nat :=
  let e := n.log2 + 1 - 53
  let q := n / 2 ^ e
  let r := n % 2 ^ e
  (if 2 ^ e < 2 * r ∨ 2 * r = 2 ^ e ∧ 0 < e ∧ q % 2 = 1 then q + 1 else q) * 2 ^ e

/-- The natural numbers among the floats, each printed with all its digits. -/
def float53 : NumberFormat { n : Nat // round53 n = n } where
  parse literal :=
    if literal.all Char.isDigit then
      let n := round53 (Nat.ofDigitChars 10 literal 0)
      if h : round53 n = n then some ⟨n, h⟩ else none
    else none
  format n := Nat.toDigits 10 n.1
  ofNat n := if h : round53 n = n then ⟨n, h⟩ else ⟨0, rfl⟩
  isNumber_format n := natFormat.isNumber_format n.1
  parse_format n := by
    have hd : (Nat.toDigits 10 n.1).all Char.isDigit := by
      rw [List.all_eq_true]
      exact fun c hc => Nat.isDigit_of_mem_toDigits (by decide) (by decide) hc
    simp only [hd, if_true, Nat.ofDigitChars_ten_toDigits, n.2, dite_true]

end Json

end InferenceScheduler
