/-
What a Go function can do with a call: return a value, return an error, or
panic. `Go.Asserts` says when a call returns a value and that it panics
otherwise; calls in a row are put together by `Go.Asserts.bind`.
-/
import InferenceScheduler.Lib.SortedMap

namespace InferenceScheduler

/-- The outcome of a call that returns an `α` or an error `ε`. -/
inductive Go (ε α : Type)
  | panic
  | error (err : ε)
  | ok (val : α)
  deriving Repr, DecidableEq

namespace Go

variable {ε α β : Type}

protected def bind : Go ε α → (α → Go ε β) → Go ε β
  | panic, _ => panic
  | error e, _ => error e
  | ok a, f => f a

instance : Monad (Go ε) where
  pure := ok
  bind := Go.bind

@[simp] theorem pure_eq (a : α) : (pure a : Go ε α) = ok a := rfl

@[simp] theorem panic_bind (f : α → Go ε β) : (panic >>= f) = panic := rfl

@[simp] theorem error_bind (e : ε) (f : α → Go ε β) : (error e >>= f) = error e := rfl

@[simp] theorem ok_bind (a : α) (f : α → Go ε β) : (ok a >>= f) = f a := rfl

theorem bind_pure_ne_panic_iff {x : Go ε α} {f : α → β} : (x >>= fun a => pure (f a)) ≠ panic ↔ x ≠ panic := by
  cases x <;> simp

/-- A value that has to be there. -/
def ofOption : Option α → Go ε α
  | none => panic
  | some a => ok a

@[simp] theorem ofOption_some (a : α) : (ofOption (some a) : Go ε α) = ok a := rfl

/-- The call returns a value where `p` holds and panics elsewhere. -/
def Asserts (x : Go ε α) (p : Prop) : Prop := (p → ∃ a, x = ok a) ∧ (¬ p → x = panic)

theorem asserts_ok (a : α) : (ok a : Go ε α).Asserts True := ⟨fun _ => ⟨a, rfl⟩, fun h => absurd trivial h⟩

theorem asserts_panic : (panic : Go ε α).Asserts False := ⟨False.elim, fun _ => rfl⟩

variable {x : Go ε α} {p q : Prop}

theorem Asserts.congr (h : x.Asserts p) (hpq : p ↔ q) : x.Asserts q := by rwa [← propext hpq]

theorem Asserts.ne_panic_iff (h : x.Asserts p) : x ≠ panic ↔ p := by
  refine ⟨fun hx => by_contra fun hp => hx (h.2 hp), fun hp => ?_⟩
  obtain ⟨a, ha⟩ := h.1 hp
  simp [ha]

/-- **Two calls in a row** return where both conditions hold. -/
theorem Asserts.bind {f : α → Go ε β} (h : x.Asserts p) (hf : ∀ a, (f a).Asserts q) : (x >>= f).Asserts (p ∧ q) := by
  constructor
  · rintro ⟨hp, hq⟩
    obtain ⟨a, ha⟩ := h.1 hp
    obtain ⟨b, hb⟩ := (hf a).1 hq
    exact ⟨b, by rw [ha, ok_bind, hb]⟩
  · intro hpq
    by_cases hp : p
    · obtain ⟨a, ha⟩ := h.1 hp
      rw [ha, ok_bind, (hf a).2 fun hq => hpq ⟨hp, hq⟩]
    · rw [h.2 hp, panic_bind]

theorem Asserts.map {f : α → β} (h : x.Asserts p) : (x >>= fun a => ok (f a)).Asserts p :=
  (h.bind fun a => asserts_ok (f a)).congr (and_iff_left trivial)

end Go

section Slices

variable {ε α : Type}

/-- The expression `data[i]`. -/
def index (data : List α) (i : Nat) : Go ε α := .ofOption data[i]?

/-- The expression `data[lo:hi]`, for a slice that ends where its array does. -/
def slice (data : List α) (lo hi : Nat) : Go ε (List α) :=
  if lo ≤ hi ∧ hi ≤ data.length then .ok ((data.take hi).drop lo) else .panic

variable {data : List α}

theorem index_eq_ok {i : Nat} (h : i < data.length) : (index data i : Go ε α) = .ok data[i] := by
  rw [index, List.getElem?_eq_getElem h, Go.ofOption_some]

theorem slice_eq_ok {lo hi : Nat} (h : lo ≤ hi) (h' : hi ≤ data.length) :
    (slice data lo hi : Go ε (List α)) = .ok ((data.take hi).drop lo) := if_pos ⟨h, h'⟩

theorem slice_eq_panic {lo hi : Nat} (h : hi < lo) : (slice data lo hi : Go ε (List α)) = .panic := if_neg (by omega)

end Slices

end InferenceScheduler
