/-
A scan that goes round `n` places from a starting place and stops at the first
one that is wanted. `ahead n start j` says how many places it passes before it
comes to `j`; starting again right behind the place it stopped at leaves every
place beyond that one nearer (`ahead_next`).
-/
import Mathlib.Data.List.Basic

namespace InferenceScheduler.Rotation

/-- The first wanted place of `start, start + 1, …`, going round `n` places. -/
def rotate (n start : Nat) (wanted : Nat → Bool) : Option Nat :=
  ((List.range n).find? fun i => wanted ((start + i) % n)).map fun i => (start + i) % n

/-- How many places are passed before `j` when starting at `start`. -/
def ahead (n start j : Nat) : Nat :=
  if start ≤ j then j - start else j + n - start

variable {n start j x : Nat} {wanted : Nat → Bool}

theorem ahead_lt (hs : start < n) (hj : j < n) : ahead n start j < n := by
  unfold ahead
  split <;> omega

theorem ahead_add (hs : start < n) (hj : j < n) : (start + ahead n start j) % n = j := by
  unfold ahead
  split
  · rw [show start + (j - start) = j by omega]
    exact Nat.mod_eq_of_lt hj
  · rw [show start + (j + n - start) = j + n by omega, Nat.add_mod_right]
    exact Nat.mod_eq_of_lt hj

theorem ahead_of_add (hs : start < n) {i : Nat} (hi : i < n) : ahead n start ((start + i) % n) = i := by
  unfold ahead
  by_cases h : start + i < n
  · rw [Nat.mod_eq_of_lt h, if_pos (Nat.le_add_right ..)]
    omega
  · rw [Nat.mod_eq_sub_mod (by omega), Nat.mod_eq_of_lt (by omega), if_neg (by omega)]
    omega

theorem ahead_inj (hs : start < n) (hj : j < n) (hx : x < n) (h : ahead n start x = ahead n start j) :
    x = j := by
  rw [← ahead_add hs hj, ← ahead_add hs hx, h]

theorem succ_mod (hx : x < n) : (x + 1) % n = if x + 1 = n then 0 else x + 1 := by
  split
  · rename_i h
    rw [h, Nat.mod_self]
  · exact Nat.mod_eq_of_lt (by omega)

theorem ahead_next (hs : start < n) (hj : j < n) (hx : x < n) (h : ahead n start x < ahead n start j) :
    ahead n ((x + 1) % n) j + ahead n start x + 1 = ahead n start j := by
  rw [succ_mod hx]
  unfold ahead at h ⊢
  split_ifs at h ⊢ <;> omega

theorem ahead_self (hx : x < n) : ahead n ((x + 1) % n) x + 1 = n := by
  rw [succ_mod hx]
  unfold ahead
  split_ifs <;> omega

/-- **The scan stops at a wanted place, before every other one.** -/
theorem rotate_spec (hs : start < n) (h : rotate n start wanted = some x) :
    x < n ∧ wanted x = true ∧ ∀ j, j < n → wanted j = true → ahead n start x ≤ ahead n start j := by
  unfold rotate at h
  obtain ⟨i, hi, rfl⟩ := Option.map_eq_some_iff.mp h
  obtain ⟨hw, hmem, hfirst⟩ := List.find?_range_eq_some.mp hi
  have hin : i < n := List.mem_range.mp hmem
  refine ⟨Nat.mod_lt _ (by omega), hw, ?_⟩
  intro j hj hwj
  rw [ahead_of_add hs hin]
  by_contra hlt
  have hskip := hfirst (ahead n start j) (by omega)
  rw [ahead_add hs hj, hwj] at hskip
  cases hskip

theorem rotate_isSome (hs : start < n) (hj : j < n) (hw : wanted j = true) :
    ∃ x, rotate n start wanted = some x := by
  cases hr : rotate n start wanted with
  | some x => exact ⟨x, rfl⟩
  | none =>
    exfalso
    have hnone := List.find?_eq_none.mp (Option.map_eq_none_iff.mp hr)
    refine hnone (ahead n start j) (List.mem_range.mpr (ahead_lt hs hj)) ?_
    rw [ahead_add hs hj]
    exact hw

end InferenceScheduler.Rotation
