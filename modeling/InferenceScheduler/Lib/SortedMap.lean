/-
Finite maps as lists of entries in the order of their keys. Two such lists with
the same entry for every key are equal.
-/
import Mathlib.Data.List.Lex
import Mathlib.Data.List.Pairwise
import Mathlib.Order.Lattice

namespace InferenceScheduler.SortedMap

variable {κ ν : Type*} [LinearOrder κ]

/-- Sets the entry of `k`. -/
def put (k : κ) (v : ν) : List (κ × ν) → List (κ × ν)
  | [] => [(k, v)]
  | (k', v') :: m =>
    if k < k' then (k, v) :: (k', v') :: m
    else if k = k' then (k, v) :: m
    else (k', v') :: put k v m

/-- Drops the entry of `k`. -/
def delete (k : κ) (m : List (κ × ν)) : List (κ × ν) := m.filter (·.1 ≠ k)

/-- The entry of `k`. -/
def get? : List (κ × ν) → κ → Option ν
  | [], _ => none
  | (k', v) :: m, k => if k = k' then some v else get? m k

def Sorted (m : List (κ × ν)) : Prop := m.Pairwise (·.1 < ·.1)

variable {k k' : κ} {v : ν} {m m' : List (κ × ν)}

@[simp] theorem get?_nil : get? ([] : List (κ × ν)) k = none := rfl

@[simp] theorem get?_put_self : ∀ m : List (κ × ν), get? (put k v m) k = some v
  | [] => by simp [put, get?]
  | (k₁, v₁) :: m => by
    rw [put]
    split_ifs with h₁ h₂
    · simp [get?]
    · simp [get?]
    · simp [get?, h₂, get?_put_self m]

theorem get?_put_of_ne (h : k' ≠ k) : ∀ m : List (κ × ν), get? (put k v m) k' = get? m k'
  | [] => by simp [put, get?, h]
  | (k₁, v₁) :: m => by
    rw [put]
    split_ifs with h₁ h₂
    · simp [get?, h]
    · subst h₂
      simp [get?, h]
    · simp [get?, get?_put_of_ne h m]

@[simp] theorem get?_delete_self : ∀ m : List (κ × ν), get? (delete k m) k = none
  | [] => rfl
  | (k₁, v₁) :: m => by
    have ih : get? (delete k m) k = none := get?_delete_self m
    unfold delete at ih ⊢
    by_cases h : k₁ = k
    · simpa [h] using ih
    · rw [List.filter_cons_of_pos (by simpa using h), get?, if_neg (Ne.symm h), ih]

theorem get?_delete_of_ne (h : k' ≠ k) : ∀ m : List (κ × ν), get? (delete k m) k' = get? m k'
  | [] => rfl
  | (k₁, v₁) :: m => by
    have ih := get?_delete_of_ne h m
    unfold delete at ih ⊢
    by_cases h₁ : k₁ = k
    · subst h₁
      rw [List.filter_cons_of_neg (by simp), ih, get?, if_neg h]
    · rw [List.filter_cons_of_pos (by simpa using h₁), get?, get?, ih]

theorem mem_of_get? : ∀ {m : List (κ × ν)}, get? m k = some v → (k, v) ∈ m
  | (k₁, v₁) :: m, h => by
    rw [get?] at h
    split_ifs at h with hk
    · simp only [Option.some.injEq] at h
      simp [hk, h]
    · exact List.mem_cons_of_mem _ (mem_of_get? h)

theorem mem_put {x : κ × ν} : ∀ {m : List (κ × ν)}, x ∈ put k v m → x = (k, v) ∨ x ∈ m
  | [], h => by simpa [put] using h
  | (k₁, v₁) :: m, h => by
    rw [put] at h
    split_ifs at h with h₁ h₂
    · simpa using h
    · rcases List.mem_cons.mp h with h | h
      · exact .inl h
      · exact .inr (List.mem_cons_of_mem _ h)
    · rcases List.mem_cons.mp h with h | h
      · exact .inr (h ▸ List.mem_cons_self)
      · exact (mem_put h).imp_right (List.mem_cons_of_mem _)

theorem mem_of_mem_delete {x : κ × ν} (h : x ∈ delete k m) : x ∈ m := (List.mem_filter.mp h).1

theorem Sorted.put (h : Sorted m) : Sorted (put k v m) := by
  induction m with
  | nil => simp [SortedMap.put, Sorted]
  | cons x m ih =>
    obtain ⟨k₁, v₁⟩ := x
    obtain ⟨hx, hm⟩ := List.pairwise_cons.mp h
    rw [SortedMap.put]
    split_ifs with h₁ h₂
    · refine List.pairwise_cons.mpr ⟨fun y hy => ?_, h⟩
      rcases List.mem_cons.mp hy with rfl | hy
      · exact h₁
      · exact h₁.trans (hx y hy)
    · subst h₂
      exact List.pairwise_cons.mpr ⟨hx, hm⟩
    · refine List.pairwise_cons.mpr ⟨fun y hy => ?_, ih hm⟩
      rcases mem_put hy with rfl | hy
      · exact lt_of_le_of_ne (not_lt.mp h₁) (Ne.symm h₂)
      · exact hx y hy

theorem Sorted.delete (h : Sorted m) : Sorted (delete k m) := List.Pairwise.filter _ h

theorem get?_eq_none_of_lt (h : ∀ x ∈ m, k < x.1) : get? m k = none := by
  cases hg : get? m k with
  | none => rfl
  | some v => exact absurd (h _ (mem_of_get? hg)) (lt_irrefl k)

/-- **Sorted lists with the same entries are equal.** -/
theorem Sorted.ext (h : Sorted m) (h' : Sorted m') (hg : ∀ k, get? m k = get? m' k) : m = m' := by
  induction m generalizing m' with
  | nil =>
    cases m' with
    | nil => rfl
    | cons x m' => simpa [get?] using hg x.1
  | cons x m ih =>
    obtain ⟨k, v⟩ := x
    obtain ⟨hx, hm⟩ := List.pairwise_cons.mp h
    cases m' with
    | nil => simpa [get?] using hg k
    | cons y m' =>
      obtain ⟨k', v'⟩ := y
      obtain ⟨hy, hm'⟩ := List.pairwise_cons.mp h'
      -- the least key of each list is found in the other, so they agree
      have hk : k = k' := by
        rcases lt_trichotomy k k' with hlt | he | hlt
        · have hn : get? ((k', v') :: m') k = none :=
            get?_eq_none_of_lt (List.forall_mem_cons.mpr ⟨hlt, fun y hy' => hlt.trans (hy y hy')⟩)
          rw [← hg k] at hn
          simp [get?] at hn
        · exact he
        · have hn : get? ((k, v) :: m) k' = none :=
            get?_eq_none_of_lt (List.forall_mem_cons.mpr ⟨hlt, fun y hy' => hlt.trans (hx y hy')⟩)
          rw [hg k'] at hn
          simp [get?] at hn
      subst hk
      have hv : v = v' := by simpa [get?] using hg k
      have ht : m = m' := by
        refine ih hm hm' fun j => ?_
        by_cases hj : j = k
        · subst hj
          rw [get?_eq_none_of_lt hx, get?_eq_none_of_lt hy]
        · simpa [get?, hj] using hg j
      rw [hv, ht]

theorem put_of_forall_lt (h : ∀ x ∈ m, x.1 < k) : put k v m = m ++ [(k, v)] := by
  induction m with
  | nil => rfl
  | cons x m ih =>
    obtain ⟨hx, hm⟩ := List.forall_mem_cons.mp h
    rw [put, if_neg (not_lt.mpr hx.le), if_neg (ne_of_gt hx), ih hm, List.cons_append]

end InferenceScheduler.SortedMap
