/-
A store of objects with identities: an object is known by the number it was
allocated under, so two references are the same object exactly when their
numbers are equal. Objects are never freed.
-/
import Mathlib.Logic.Function.Basic

namespace InferenceScheduler

/-- The objects allocated so far are those below `next`. -/
structure Heap (α : Type*) where
  obj : Nat → α
  next : Nat := 0

namespace Heap

variable {α : Type*} (h : Heap α) {a b : Nat} {x : α}

/-- Allocates an object at `h.next`. -/
def alloc (x : α) : Heap α := { obj := Function.update h.obj h.next x, next := h.next + 1 }

/-- Replaces an object's contents. -/
def set (a : Nat) (x : α) : Heap α := { h with obj := Function.update h.obj a x }

@[simp] theorem alloc_next : (h.alloc x).next = h.next + 1 := rfl

@[simp] theorem alloc_obj_self : (h.alloc x).obj h.next = x := by simp [alloc]

theorem alloc_obj_of_lt (ha : a < h.next) : (h.alloc x).obj a = h.obj a := by
  simp [alloc, Nat.ne_of_lt ha]

@[simp] theorem set_obj_self : (h.set a x).obj a = x := by simp [set]

theorem set_obj_of_ne (hab : b ≠ a) : (h.set a x).obj b = h.obj b := by
  simp [set, hab]

end Heap

end InferenceScheduler
