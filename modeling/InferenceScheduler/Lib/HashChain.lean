/-
Chained hashes of a sequence of blocks: each block is hashed together with the
hash before it, so a hash stands for all blocks up to its own and for the seed
(`chain_getElem?_eq_iff`), if the step is injective on what it is given in the
two chains that are compared (`links`).
-/
import Mathlib.Data.List.Basic

namespace InferenceScheduler

/-- No two members of the list share a hash. -/
def CollisionFree {α β : Type*} (hash : α → β) (l : List α) : Prop := ∀ x ∈ l, ∀ y ∈ l, hash x = hash y → x = y

instance {α β : Type*} [DecidableEq α] [DecidableEq β] (hash : α → β) (l : List α) : Decidable (CollisionFree hash l) :=
  inferInstanceAs (Decidable (∀ x ∈ l, ∀ y ∈ l, hash x = hash y → x = y))

section Chain

variable {β H : Type*} (f : β → H → H)

/-- The hashes of the blocks, from a seed. -/
def chain : H → List β → List H
  | _, [] => []
  | h, b :: bs => f b h :: chain (f b h) bs

/-- What the step is given along a chain. -/
def links : H → List β → List (β × H)
  | _, [] => []
  | h, b :: bs => (b, h) :: links (f b h) bs

variable {f} {h h' : H} {bs bs' : List β}

theorem length_chain : (chain f h bs).length = bs.length := by
  induction bs generalizing h with
  | nil => rfl
  | cons b bs ih => rw [chain, List.length_cons, List.length_cons, ih]

/-- **A hash of the chain stands for the seed and the blocks up to its own.** -/
theorem chain_getElem?_eq_iff {i : Nat}
    (hinj : ∀ p ∈ links f h bs, ∀ q ∈ links f h' bs', f p.1 p.2 = f q.1 q.2 → p = q) (hi : i < bs.length)
    (hi' : i < bs'.length) :
    (chain f h bs)[i]? = (chain f h' bs')[i]? ↔ h = h' ∧ bs.take (i + 1) = bs'.take (i + 1) := by
  induction i generalizing h h' bs bs' with
  | zero =>
    cases bs with
    | nil => exact absurd hi (Nat.not_lt_zero _)
    | cons b bs =>
      cases bs' with
      | nil => exact absurd hi' (Nat.not_lt_zero _)
      | cons b' bs' =>
        simp only [chain, List.getElem?_cons_zero, Option.some.injEq, List.take_succ_cons, List.take_zero,
          List.cons.injEq, and_true]
        constructor
        · intro heq
          have := hinj (b, h) (.head _) (b', h') (.head _) heq
          exact ⟨congrArg Prod.snd this, congrArg Prod.fst this⟩
        · rintro ⟨rfl, rfl⟩
          rfl
  | succ i ih =>
    cases bs with
    | nil => exact absurd hi (Nat.not_lt_zero _)
    | cons b bs =>
      cases bs' with
      | nil => exact absurd hi' (Nat.not_lt_zero _)
      | cons b' bs' =>
        have hrest : (chain f (f b h) bs)[i]? = (chain f (f b' h') bs')[i]? ↔
            f b h = f b' h' ∧ bs.take (i + 1) = bs'.take (i + 1) :=
          ih (fun p hp q hq => hinj p (.tail _ hp) q (.tail _ hq)) (Nat.lt_of_succ_lt_succ hi)
            (Nat.lt_of_succ_lt_succ hi')
        rw [chain, chain, List.getElem?_cons_succ, List.getElem?_cons_succ, hrest, List.take_succ_cons (a := b),
          List.take_succ_cons (a := b'), List.cons.injEq]
        constructor
        · rintro ⟨heq, htake⟩
          have := hinj (b, h) (.head _) (b', h') (.head _) heq
          exact ⟨congrArg Prod.snd this, congrArg Prod.fst this, htake⟩
        · rintro ⟨rfl, rfl, htake⟩
          exact ⟨rfl, htake⟩

end Chain

section Blocks

variable {α : Type*}

/-- The list in blocks of `n`, the last one with what is left. -/
def blocks (n : Nat) (l : List α) : List (List α) :=
  (List.range ((l.length + (n - 1)) / n)).map fun j => (l.drop (j * n)).take n

variable {n : Nat} {l : List α}

theorem blocks_nil (hn : 0 < n) : blocks n ([] : List α) = [] := by
  have : (0 + (n - 1)) / n = 0 := Nat.div_eq_of_lt (by omega)
  rw [blocks, List.length_nil, this]
  rfl

theorem blocks_eq_cons (hn : 0 < n) (hl : l ≠ []) : blocks n l = l.take n :: blocks n (l.drop n) := by
  have hpos : 0 < l.length := List.length_pos_iff.mpr hl
  have hcount : (l.length + (n - 1)) / n = ((l.drop n).length + (n - 1)) / n + 1 := by
    rw [List.length_drop]
    by_cases hle : n ≤ l.length
    · rw [← Nat.add_div_right _ hn]
      congr 1
      omega
    · have hzero : l.length - n = 0 := by omega
      rw [hzero, Nat.zero_add, Nat.div_eq_of_lt (by omega : n - 1 < n), Nat.div_eq_iff hn]
      omega
  rw [blocks, hcount, List.range_succ_eq_map, List.map_cons, List.map_map, Nat.zero_mul, List.drop_zero, blocks]
  congr 1
  refine List.map_congr_left fun j _ => ?_
  rw [Function.comp_apply, List.drop_drop, Nat.succ_mul, Nat.add_comm]

theorem blocks_of_length_le (hl : l ≠ []) (hle : l.length ≤ n) : blocks n l = [l] := by
  have hn : 0 < n := Nat.lt_of_lt_of_le (List.length_pos_iff.mpr hl) hle
  rw [blocks_eq_cons hn hl, List.take_of_length_le hle, List.drop_eq_nil_of_le hle, blocks_nil hn]

end Blocks

end InferenceScheduler
