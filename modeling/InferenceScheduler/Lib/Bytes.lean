/-
Byte strings, as Go's `string` and `[]byte` hold them: the bytes of a text in
UTF-8, `strings.ToLower` as far as it decides equality with an ASCII name, and
`bytes.ReplaceAll`.
-/
import Mathlib.Data.List.Infix
import Mathlib.Data.List.Lex
import Mathlib.Order.Fin.Basic

namespace InferenceScheduler

abbrev Byte := Fin 256

abbrev Bytes := List Byte

instance neZero_byte : @NeZero Nat Zero.ofOfNat0 256 := Nat.instNeZeroSucc

instance lawfulBEq_byte : LawfulBEq Byte := inferInstance

/-- The bytes of a text. -/
def utf8 (s : List Char) : Bytes := s.flatMap fun c => (String.utf8EncodeChar c).map fun b => Fin.ofNat 256 b.toNat

/-- The bytes of a string literal. -/
def str (s : String) : Bytes := utf8 s.toList

/-- The Kelvin sign and the dotted I are the two characters outside ASCII whose lower
case is in ASCII. -/
def toLower : Bytes → Bytes
  | 0xe2 :: 0x84 :: 0xaa :: s => 0x6b :: toLower s
  | 0xc4 :: 0xb0 :: s => 0x69 :: toLower s
  | b :: s => (if 0x41 ≤ b ∧ b ≤ 0x5a then b + 0x20 else b) :: toLower s
  | [] => []

section Replace

variable {α : Type*} [DecidableEq α]

/-- The scan of `bytes.ReplaceAll`: the first `skip` elements are of an occurrence
that has been replaced. -/
def replaceFrom (old new : List α) : Nat → List α → List α
  | _, [] => []
  | 0, x :: s => if old <+: x :: s then new ++ replaceFrom old new (old.length - 1) s else x :: replaceFrom old new 0 s
  | skip + 1, _ :: s => replaceFrom old new skip s

/-- Every occurrence of `old`, from the left and without overlap, replaced by
`new`; `old` is not empty. -/
def replaceAll (old new s : List α) : List α := replaceFrom old new 0 s

omit [DecidableEq α] in
/-- An occurrence of `old` begins in `u` and ends in `v`. -/
def Straddles (old u v : List α) : Prop := ∃ w, w <:+ u ∧ w ≠ [] ∧ old <+: w ++ v ∧ w.length < old.length

variable {old new : List α}

omit [DecidableEq α] in
theorem Straddles.of_suffix {u u' v : List α} (h : Straddles old u v) (hu : u <:+ u') : Straddles old u' v := by
  obtain ⟨w, hw, hne, hold, hlen⟩ := h
  exact ⟨w, hw.trans hu, hne, hold, hlen⟩

/-- The scan starts afresh where no occurrence crosses. -/
theorem replaceFrom_append {v : List α} : ∀ {u : List α} {skip : Nat}, ¬ Straddles old u v → skip ≤ u.length →
    replaceFrom old new skip (u ++ v) = replaceFrom old new skip u ++ replaceAll old new v
  | [], skip, _, hskip => by
    obtain rfl : skip = 0 := by simpa using hskip
    simp [replaceFrom, replaceAll]
  | x :: u, 0, h, _ => by
    have hu : ¬ Straddles old u v := fun hs => h (hs.of_suffix (List.suffix_cons x u))
    rw [List.cons_append, replaceFrom, replaceFrom]
    by_cases hold : old <+: x :: (u ++ v)
    · have hlen : old.length ≤ (x :: u).length := by
        by_contra hlt
        exact h ⟨x :: u, List.suffix_rfl, by simp, hold, by omega⟩
      have hin : old <+: x :: u := List.prefix_of_prefix_length_le hold (List.prefix_append (x :: u) v) hlen
      rw [if_pos hold, if_pos hin, replaceFrom_append hu (by simp only [List.length_cons] at hlen; omega),
        List.append_assoc]
    · have hin : ¬ old <+: x :: u := fun hin => hold (hin.trans (List.prefix_append (x :: u) v))
      rw [if_neg hold, if_neg hin, replaceFrom_append hu (Nat.zero_le _), List.cons_append]
  | x :: u, skip + 1, h, hskip => by
    rw [List.cons_append, replaceFrom, replaceFrom]
    exact replaceFrom_append (fun hs => h (hs.of_suffix (List.suffix_cons x u))) (by simpa using hskip)

/-- **Replacing piece by piece** is replacing in the whole if no occurrence
crosses from a piece to the next. -/
theorem replaceAll_flatten : ∀ {pieces : List (List α)},
    (∀ i, ¬ Straddles old (pieces.take i).flatten (pieces.drop i).flatten) →
    replaceAll old new pieces.flatten = (pieces.map (replaceAll old new)).flatten
  | [], _ => by simp [replaceAll, replaceFrom]
  | piece :: pieces, h => by
    have h₁ : ¬ Straddles old piece pieces.flatten := by simpa using h 1
    have htail : replaceAll old new pieces.flatten = (pieces.map (replaceAll old new)).flatten := by
      refine replaceAll_flatten fun i hs => h (i + 1) ?_
      exact hs.of_suffix (List.suffix_append _ _)
    rw [List.flatten_cons, replaceAll, replaceFrom_append h₁ (Nat.zero_le _), htail]
    simp [replaceAll]

theorem replaceAll_of_absent : ∀ {s : List α}, ¬ old <:+: s → replaceAll old new s = s
  | [], _ => rfl
  | x :: s, h => by
    have hs : replaceAll old new s = s :=
      replaceAll_of_absent fun hi => h (hi.trans (List.suffix_cons x s).isInfix)
    unfold replaceAll at hs ⊢
    rw [replaceFrom, if_neg fun hp => h hp.isInfix, hs]

theorem replaceFrom_skip : ∀ {s : List α}, replaceFrom old new s.length s = []
  | [] => rfl
  | _ :: s => by simpa [replaceFrom] using replaceFrom_skip (s := s)

theorem replaceAll_self (h : old ≠ []) : replaceAll old new old = new := by
  cases old with
  | nil => exact absurd rfl h
  | cons x old => simpa [replaceAll, replaceFrom] using replaceFrom_skip (s := old)

/-- What the replaced occurrences add to the length. -/
theorem exists_length_replaceFrom (h : old ≠ []) (new : List α) : ∀ (s : List α) (skip : Nat), skip ≤ s.length →
    ∃ n, (replaceFrom old new skip s).length + n * old.length + skip = s.length + n * new.length
  | [], skip, hskip => by
    obtain rfl : skip = 0 := by simpa using hskip
    exact ⟨0, by simp [replaceFrom]⟩
  | x :: s, 0, _ => by
    rw [replaceFrom]
    split
    · next hold =>
      have hle := hold.length_le
      have hpos := List.length_pos_iff.mpr h
      rw [List.length_cons] at hle
      obtain ⟨n, hn⟩ := exists_length_replaceFrom h new s (old.length - 1) (by omega)
      refine ⟨n + 1, ?_⟩
      rw [List.length_append, List.length_cons, Nat.succ_mul, Nat.succ_mul]
      omega
    · obtain ⟨n, hn⟩ := exists_length_replaceFrom h new s 0 (Nat.zero_le _)
      refine ⟨n, ?_⟩
      rw [List.length_cons, List.length_cons]
      omega
  | x :: s, skip + 1, hskip => by
    obtain ⟨n, hn⟩ := exists_length_replaceFrom h new s skip (by simpa using hskip)
    refine ⟨n, ?_⟩
    rw [replaceFrom, List.length_cons]
    omega

theorem length_replaceAll_le (h : old ≠ []) (hle : new.length ≤ old.length) (s : List α) :
    (replaceAll old new s).length ≤ s.length := by
  obtain ⟨n, hn⟩ := exists_length_replaceFrom h new s 0 (Nat.zero_le _)
  have := Nat.mul_le_mul_left n hle
  unfold replaceAll
  omega

theorem le_length_replaceAll (h : old ≠ []) (hle : old.length ≤ new.length) (s : List α) :
    s.length ≤ (replaceAll old new s).length := by
  obtain ⟨n, hn⟩ := exists_length_replaceFrom h new s 0 (Nat.zero_le _)
  have := Nat.mul_le_mul_left n hle
  unfold replaceAll
  omega

/-- **What is replaced is changed**, at its first occurrence or in its length. -/
theorem replaceAll_eq_self (h : old ≠ []) (hne : old ≠ new) : ∀ {s : List α}, replaceAll old new s = s → ¬ old <:+: s
  | [], _ => fun hi => h (List.infix_nil.mp hi)
  | x :: s, heq => by
    unfold replaceAll at heq
    rw [replaceFrom] at heq
    split at heq
    · next hold =>
      have hle := hold.length_le
      have hpos := List.length_pos_iff.mpr h
      rw [List.length_cons] at hle
      obtain ⟨n, hn⟩ := exists_length_replaceFrom h new s (old.length - 1) (by omega)
      have hlen := congrArg List.length heq
      rw [List.length_append, List.length_cons] at hlen
      have hmul : (n + 1) * old.length = (n + 1) * new.length := by
        rw [Nat.succ_mul, Nat.succ_mul]
        omega
      have hsame : old.length = new.length := Nat.eq_of_mul_eq_mul_left (Nat.succ_pos n) hmul
      have hin : old <+: new := List.prefix_of_prefix_length_le hold ⟨_, heq⟩ hsame.le
      exact absurd (hin.eq_of_length hsame) hne
    · next hold =>
      rw [List.infix_cons_iff, not_or]
      exact ⟨hold, replaceAll_eq_self h hne (List.cons.inj heq).2⟩

end Replace

end InferenceScheduler
