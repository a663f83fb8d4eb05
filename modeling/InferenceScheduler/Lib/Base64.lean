/-
Base64 as `base64.StdEncoding` writes and reads it: padded groups of four
characters. The decoder drops line breaks, takes a padded group only at the end
and does not check the bits that padding leaves over.
-/
import InferenceScheduler.Lib.Bytes

namespace InferenceScheduler.Base64

def alphabet : Bytes := str "ABCDEFGHIJKLMNOPQRSTUVWXYZabcdefghijklmnopqrstuvwxyz0123456789+/"

/-- The character of six bits. -/
def encodeSextet (v : Nat) : Byte := alphabet.getD v 0

/-- The six bits of a character. -/
def decodeSextet (c : Byte) : Option Nat := alphabet.idxOf? c

def padChar : Byte := 0x3d

def byteOf (n : Nat) : Byte := Fin.ofNat 256 n

/-- `EncodeToString`. -/
def encode : Bytes → Bytes
  | a :: b :: c :: rest =>
    encodeSextet (a / 4) :: encodeSextet (a % 4 * 16 + b / 16) :: encodeSextet (b % 16 * 4 + c / 64) ::
      encodeSextet (c % 64) :: encode rest
  | [a, b] => [encodeSextet (a / 4), encodeSextet (a % 4 * 16 + b / 16), encodeSextet (b % 16 * 4), padChar]
  | [a] => [encodeSextet (a / 4), encodeSextet (a % 4 * 16), padChar, padChar]
  | [] => []

/-- The groups of a text without line breaks. -/
def decodeGroups : Bytes → Option Bytes
  | [] => some []
  | c₀ :: c₁ :: c₂ :: c₃ :: rest => do
    let s₀ ← decodeSextet c₀
    let s₁ ← decodeSextet c₁
    let a := byteOf (s₀ * 4 + s₁ / 16)
    if c₂ = padChar then
      -- "==" is expected, and nothing after it
      if c₃ = padChar ∧ rest = [] then some [a] else none
    else
      let s₂ ← decodeSextet c₂
      let b := byteOf (s₁ % 16 * 16 + s₂ / 4)
      if c₃ = padChar then
        if rest = [] then some [a, b] else none
      else
        let s₃ ← decodeSextet c₃
        let bytes ← decodeGroups rest
        some (a :: b :: byteOf (s₂ % 4 * 64 + s₃) :: bytes)
  | _ => none

/-- `DecodeString`. -/
def decode (s : Bytes) : Option Bytes := decodeGroups (s.filter fun c => c ≠ 0x0a && c ≠ 0x0d)

/-! ## The round trip -/

theorem decodeSextet_encodeSextet_fin : ∀ v : Fin 64,
    decodeSextet (encodeSextet v) = some v.val ∧ encodeSextet v ≠ padChar ∧ encodeSextet v ≠ 0x0a ∧
      encodeSextet v ≠ 0x0d := by
  decide +kernel

section

variable {v : Nat} (h : v < 64)
include h

theorem decodeSextet_encodeSextet : decodeSextet (encodeSextet v) = some v :=
  (decodeSextet_encodeSextet_fin ⟨v, h⟩).1

theorem encodeSextet_ne_padChar : encodeSextet v ≠ padChar := (decodeSextet_encodeSextet_fin ⟨v, h⟩).2.1

theorem encodeSextet_no_break : (encodeSextet v ≠ 0x0a && encodeSextet v ≠ 0x0d) = true := by
  have := (decodeSextet_encodeSextet_fin ⟨v, h⟩).2.2
  simp [this.1, this.2]

end

theorem byteOf_eq {n : Nat} {b : Byte} (h : n = b.val) : byteOf n = b := by
  subst h
  exact Fin.ext (Nat.mod_eq_of_lt b.isLt)

theorem decodeGroups_encode : ∀ s : Bytes, decodeGroups (encode s) = some s
  | [] => rfl
  | [a] => by
    have ha := a.isLt
    have h₁ : a.val % 4 * 16 < 64 := by omega
    simp only [encode, decodeGroups, decodeSextet_encodeSextet (show a.val / 4 < 64 by omega),
      decodeSextet_encodeSextet h₁, Option.bind_eq_bind, Option.bind_some, and_self, if_true]
    rw [byteOf_eq (show a.val / 4 * 4 + a.val % 4 * 16 / 16 = a by omega)]
  | [a, b] => by
    have ha := a.isLt
    have hb := b.isLt
    have h₁ : a.val % 4 * 16 + b.val / 16 < 64 := by omega
    have h₂ : b.val % 16 * 4 < 64 := by omega
    simp only [encode, decodeGroups, decodeSextet_encodeSextet (show a.val / 4 < 64 by omega),
      decodeSextet_encodeSextet h₁, decodeSextet_encodeSextet h₂, if_neg (encodeSextet_ne_padChar h₂),
      Option.bind_eq_bind, Option.bind_some, if_true]
    rw [byteOf_eq (show a.val / 4 * 4 + (a.val % 4 * 16 + b.val / 16) / 16 = a by omega),
      byteOf_eq (show (a.val % 4 * 16 + b.val / 16) % 16 * 16 + b.val % 16 * 4 / 4 = b by omega)]
  | a :: b :: c :: rest => by
    have ha := a.isLt
    have hb := b.isLt
    have hc := c.isLt
    have h₁ : a.val % 4 * 16 + b.val / 16 < 64 := by omega
    have h₂ : b.val % 16 * 4 + c.val / 64 < 64 := by omega
    have h₃ : c.val % 64 < 64 := by omega
    simp only [encode, decodeGroups, decodeSextet_encodeSextet (show a.val / 4 < 64 by omega),
      decodeSextet_encodeSextet h₁, decodeSextet_encodeSextet h₂, decodeSextet_encodeSextet h₃,
      if_neg (encodeSextet_ne_padChar h₂), if_neg (encodeSextet_ne_padChar h₃), decodeGroups_encode rest,
      Option.bind_eq_bind, Option.bind_some]
    rw [byteOf_eq (show a.val / 4 * 4 + (a.val % 4 * 16 + b.val / 16) / 16 = a by omega),
      byteOf_eq (show (a.val % 4 * 16 + b.val / 16) % 16 * 16 + (b.val % 16 * 4 + c.val / 64) / 4 = b by omega),
      byteOf_eq (show (b.val % 16 * 4 + c.val / 64) % 4 * 64 + c.val % 64 = c by omega)]

theorem filter_encode : ∀ s : Bytes, (encode s).filter (fun c => c ≠ 0x0a && c ≠ 0x0d) = encode s
  | [] => rfl
  | [a] => by
    have ha := a.isLt
    have h₀ : a.val / 4 < 64 := by omega
    have h₁ : a.val % 4 * 16 < 64 := by omega
    simp only [encode, List.filter, encodeSextet_no_break h₀, encodeSextet_no_break h₁]
    rfl
  | [a, b] => by
    have ha := a.isLt
    have hb := b.isLt
    have h₀ : a.val / 4 < 64 := by omega
    have h₁ : a.val % 4 * 16 + b.val / 16 < 64 := by omega
    have h₂ : b.val % 16 * 4 < 64 := by omega
    simp only [encode, List.filter, encodeSextet_no_break h₀, encodeSextet_no_break h₁, encodeSextet_no_break h₂]
    rfl
  | a :: b :: c :: rest => by
    have ha := a.isLt
    have hb := b.isLt
    have hc := c.isLt
    have h₀ : a.val / 4 < 64 := by omega
    have h₁ : a.val % 4 * 16 + b.val / 16 < 64 := by omega
    have h₂ : b.val % 16 * 4 + c.val / 64 < 64 := by omega
    have h₃ : c.val % 64 < 64 := by omega
    have ih := filter_encode rest
    simp only [encode, List.filter_cons, encodeSextet_no_break h₀, encodeSextet_no_break h₁,
      encodeSextet_no_break h₂, encodeSextet_no_break h₃, if_true, ih]

/-- **What `EncodeToString` writes, `DecodeString` reads back.** -/
theorem decode_encode (s : Bytes) : decode (encode s) = some s := by
  rw [decode, filter_encode, decodeGroups_encode]

end InferenceScheduler.Base64
