/-
Cutting a text at a separator: a cut is a decomposition `l = a ++ c :: b`, and
which occurrence it takes is told by the part that has no further one. And what
Go's library takes for a space or a decimal number.
-/
import Mathlib.Data.List.Basic
import Mathlib.Algebra.Group.Nat.Defs

namespace InferenceScheduler

section Text

variable {α : Type*} [DecidableEq α]

/-- The parts before and after the first `c`. -/
def cutFirst (c : α) : List α → Option (List α × List α)
  | [] => none
  | x :: l => if x = c then some ([], l) else (cutFirst c l).map fun p => (x :: p.1, p.2)

/-- The parts before and after the last `c`. -/
def cutLast (c : α) : List α → Option (List α × List α)
  | [] => none
  | x :: l =>
    match cutLast c l with
    | some (a, b) => some (x :: a, b)
    | none => if x = c then some ([], l) else none

variable {c : α} {l r a b : List α}

theorem cutLast_eq_none : ∀ {l : List α}, cutLast c l = none ↔ c ∉ l
  | [] => by simp [cutLast]
  | x :: l => by
    have ih := cutLast_eq_none (l := l)
    rw [cutLast]
    cases h : cutLast c l with
    | none =>
      have hl := ih.mp h
      by_cases hx : x = c
      · simp [hx]
      · simp [hx, hl, Ne.symm hx]
    | some p =>
      have hl : c ∈ l := by
        by_contra hn
        rw [ih.mpr hn] at h
        cases h
      simp [hl]

theorem cutLast_append_cons (h : c ∉ b) : ∀ a : List α, cutLast c (a ++ c :: b) = some (a, b)
  | [] => by
    rw [List.nil_append, cutLast, cutLast_eq_none.mpr h]
    simp
  | x :: a => by rw [List.cons_append, cutLast, cutLast_append_cons h a]

theorem cutLast_eq_some : cutLast c l = some (a, b) ↔ l = a ++ c :: b ∧ c ∉ b := by
  constructor
  · induction l generalizing a with
    | nil => intro h; cases h
    | cons x l ih =>
      intro h
      rw [cutLast] at h
      cases hl : cutLast c l with
      | none =>
        rw [hl] at h
        by_cases hx : x = c
        · simp only [hx, ↓reduceIte, Option.some.injEq, Prod.mk.injEq] at h
          obtain ⟨rfl, rfl⟩ := h
          exact ⟨by simp [hx], cutLast_eq_none.mp hl⟩
        · simp [hx] at h
      | some p =>
        rw [hl] at h
        simp only [Option.some.injEq, Prod.mk.injEq] at h
        obtain ⟨rfl, rfl⟩ := h
        obtain ⟨he, hc⟩ := ih hl
        exact ⟨by rw [he, List.cons_append], hc⟩
  · rintro ⟨rfl, h⟩
    exact cutLast_append_cons h a

theorem cutFirst_append_cons : ∀ {a : List α}, c ∉ a → cutFirst c (a ++ c :: b) = some (a, b)
  | [], _ => by simp [cutFirst]
  | x :: a, h => by
    have hx : x ≠ c := fun he => h (he ▸ List.mem_cons_self)
    have ha : c ∉ a := fun hm => h (List.mem_cons_of_mem _ hm)
    simp [cutFirst, hx, cutFirst_append_cons ha]

theorem cutFirst_eq_some : cutFirst c l = some (a, b) ↔ l = a ++ c :: b ∧ c ∉ a := by
  constructor
  · induction l generalizing a with
    | nil => intro h; cases h
    | cons x l ih =>
      intro h
      rw [cutFirst] at h
      by_cases hx : x = c
      · simp only [hx, ↓reduceIte, Option.some.injEq, Prod.mk.injEq] at h
        obtain ⟨rfl, rfl⟩ := h
        exact ⟨by simp [hx], List.not_mem_nil⟩
      · simp only [hx, ↓reduceIte, Option.map_eq_some_iff, Prod.mk.injEq] at h
        obtain ⟨⟨a', b'⟩, hl, rfl, rfl⟩ := h
        obtain ⟨he, hc⟩ := ih hl
        refine ⟨by rw [he, List.cons_append], ?_⟩
        rw [List.mem_cons]
        rintro (rfl | hm)
        · exact hx rfl
        · exact hc hm
  · rintro ⟨rfl, h⟩
    exact cutFirst_append_cons h

end Text

/-- `net.JoinHostPort`. -/
def joinHostPort (host port : List Char) : List Char :=
  if ':' ∈ host then '[' :: host ++ ']' :: ':' :: port else host ++ ':' :: port

/-- `strings.ToLower`, as far as it decides what is in ASCII. -/
def lowerChar (c : Char) : Char := if c = 'K' then 'k' else if c = 'İ' then 'i' else c.toLower

def toLowerText (s : List Char) : List Char := s.map lowerChar

/-! ## Spaces and numbers -/

/-- `unicode.IsSpace`. -/
def isUnicodeSpace (c : Char) : Bool :=
  c ∈ ['\t', '\n', '\x0b', '\x0c', '\r', ' '] ||
    c.toNat ∈ [0x85, 0xa0, 0x1680, 0x2028, 0x2029, 0x202f, 0x205f, 0x3000] || (0x2000 ≤ c.toNat && c.toNat ≤ 0x200a)

/-- No visible ASCII character is a space. -/
theorem isUnicodeSpace_of_visible {c : Char} (hc : 0x20 < c.toNat ∧ c.toNat < 0x7f) : isUnicodeSpace c = false := by
  rw [Bool.eq_false_iff]
  intro h
  simp only [isUnicodeSpace, Bool.or_eq_true, Bool.and_eq_true, decide_eq_true_eq, List.mem_cons, List.not_mem_nil,
    or_false] at h
  rcases h with (h | h) | h
  · rcases h with rfl | rfl | rfl | rfl | rfl | rfl <;> revert hc <;> decide
  · omega
  · omega

/-- `strings.TrimSpace`. -/
def trimSpace (s : List Char) : List Char := ((s.dropWhile isUnicodeSpace).reverse.dropWhile isUnicodeSpace).reverse

theorem trimSpace_eq_self {s : List Char} (h : ∀ c ∈ s, isUnicodeSpace c = false) : trimSpace s = s := by
  have hdrop : ∀ l : List Char, (∀ c ∈ l, isUnicodeSpace c = false) → l.dropWhile isUnicodeSpace = l := by
    intro l hl
    cases l with
    | nil => rfl
    | cons c l => simp [hl c (by simp)]
  rw [trimSpace, hdrop s h, hdrop _ (by simpa using h), List.reverse_reverse]

/-- The number at the beginning of a text without a sign, as `%d` scans it. -/
def scanDigits (s : List Char) : Option Nat :=
  match s.takeWhile Char.isDigit with
  | [] => none
  | digits => some (Nat.ofDigitChars 10 digits 0)

/-- `fmt.Sscanf(s, "%d", &n)` for a text that begins with no space and an
`int` of 64 bits. -/
def scanDecimal : List Char → Option Int
  | '-' :: s => (scanDigits s).bind fun n => if n ≤ 2 ^ 63 then some (-n) else none
  | '+' :: s => (scanDigits s).bind fun n => if n < 2 ^ 63 then some n else none
  | s => (scanDigits s).bind fun n => if n < 2 ^ 63 then some n else none

end InferenceScheduler
