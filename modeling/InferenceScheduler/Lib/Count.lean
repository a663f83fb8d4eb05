/-
Counting the threads of a system whose local state meets a predicate, as a sum
over the finite type of threads, and how the count moves when one thread's state
is replaced; the same for what the members of a list add up to.
-/
import Mathlib.Algebra.Order.BigOperators.Group.Finset
import Mathlib.Algebra.Ring.Int.Defs
import Mathlib.Data.Fintype.BigOperators

namespace InferenceScheduler

open Function (update)

section Count

variable {ι : Type*} [Fintype ι] {β : Type*}

/-- How many threads are in a local state that meets `p`. -/
def count (p : β → Bool) (f : ι → β) : Int := ∑ i, if p (f i) then 1 else 0

variable {p : β → Bool} {f : ι → β} {i : ι} {x : β}

theorem count_nonneg : 0 ≤ count p f :=
  Finset.sum_nonneg fun i _ => by split <;> simp

theorem count_update [DecidableEq ι] : count p (update f i x) =
    count p f - (if p (f i) then 1 else 0) + (if p x then 1 else 0) := by
  have h : ∀ g : ι → β, count p g = (∑ j ∈ Finset.univ.erase i, if p (g j) then 1 else 0) +
      if p (g i) then 1 else 0 := fun g =>
    (Finset.sum_erase_add _ _ (Finset.mem_univ i)).symm
  have hrest : (∑ j ∈ Finset.univ.erase i, if p (update f i x j) then (1 : Int) else 0) =
      ∑ j ∈ Finset.univ.erase i, if p (f j) then 1 else 0 := by
    refine Finset.sum_congr rfl fun j hj => ?_
    rw [Function.update_of_ne (Finset.ne_of_mem_erase hj)]
  rw [h f, h (update f i x), hrest, Function.update_self]
  omega

theorem count_update_same [DecidableEq ι] (h : p x = p (f i)) : count p (update f i x) = count p f := by
  rw [count_update, h]
  omega

theorem count_eq_zero : count p f = 0 ↔ ∀ i, p (f i) = false := by
  unfold count
  rw [Finset.sum_eq_zero_iff_of_nonneg fun i _ => by split <;> simp]
  simp

theorem count_pos (h : p (f i) = true) : 0 < count p f := by
  have hne : count p f ≠ 0 := fun h0 => by simp [count_eq_zero.mp h0 i] at h
  have := count_nonneg (p := p) (f := f)
  omega

end Count

theorem sum_map_set {α : Type*} (g : α → Int) {l : List α} {i : Nat} {x y : α} (h : l[i]? = some x) :
    ((l.set i y).map g).sum = (l.map g).sum - g x + g y := by
  obtain ⟨hi, hx⟩ := List.getElem?_eq_some_iff.mp h
  rw [List.map_set, List.sum_set', dif_pos (by simpa using hi), List.getElem_map, hx]
  omega

theorem sum_map_filter_key {α κ : Type*} [DecidableEq κ] (key : α → κ) (g : α → Int) {x : α} :
    ∀ {l : List α}, (l.map key).Nodup → x ∈ l → ((l.filter (key · ≠ key x)).map g).sum = (l.map g).sum - g x
  | y :: l, hn, hx => by
    obtain ⟨hy, hn⟩ := List.nodup_cons.mp hn
    rcases List.mem_cons.mp hx with rfl | hx
    · have hrest : l.filter (key · ≠ key x) = l := by
        rw [List.filter_eq_self]
        intro z hz
        exact decide_eq_true fun he => hy (he ▸ List.mem_map_of_mem hz)
      rw [List.filter_cons_of_neg (by simp), hrest, List.map_cons, List.sum_cons]
      omega
    · have hne : key y ≠ key x := fun he => hy (he ▸ List.mem_map_of_mem hx)
      rw [List.filter_cons_of_pos (by simpa using hne), List.map_cons, List.map_cons, List.sum_cons, List.sum_cons,
        sum_map_filter_key key g hn hx]
      omega

end InferenceScheduler
