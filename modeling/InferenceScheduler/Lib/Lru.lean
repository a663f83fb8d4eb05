/-
A bounded map that drops its least recently used key. The keys are listed from
the most recent on; there is at least one place, no key is listed twice and no
more keys than there are places.
-/
import Mathlib.Data.Finset.Card

namespace InferenceScheduler

structure Lru (κ : Type) where
  cap : Nat
  keys : List κ
  pos : 0 < cap
  nodup : keys.Nodup
  bounded : keys.length ≤ cap

namespace Lru

variable {κ : Type}

/-- The map without keys. -/
def new (cap : Nat) (pos : 0 < cap) : Lru κ := ⟨cap, [], pos, List.nodup_nil, Nat.zero_le _⟩

/-- The keys added so far stand in front of the others. -/
def Front (l : Lru κ) (added : List κ) : Prop :=
  ∃ front back, l.keys = front ++ back ∧ ∀ x, x ∈ front ↔ x ∈ added

theorem front_nil (l : Lru κ) : l.Front [] := ⟨[], l.keys, rfl, by simp⟩

variable {added : List κ} {l : Lru κ}

theorem Front.mem (h : l.Front added) {x : κ} (hx : x ∈ added) : x ∈ l.keys := by
  obtain ⟨front, back, hkeys, hfront⟩ := h
  rw [hkeys]
  exact List.mem_append_left _ ((hfront x).mpr hx)

variable [DecidableEq κ]

/-- A key that is there moves to the front; in a full list another drops the last one. -/
def addKeys (cap : Nat) (keys : List κ) (k : κ) : List κ :=
  if k ∈ keys then k :: keys.erase k else if keys.length < cap then k :: keys else k :: keys.dropLast

theorem nodup_addKeys {cap : Nat} {keys : List κ} (h : keys.Nodup) (k : κ) : (addKeys cap keys k).Nodup := by
  unfold addKeys
  split_ifs with hk hroom
  · exact List.nodup_cons.mpr ⟨fun hm => (h.mem_erase_iff.mp hm).1 rfl, h.erase k⟩
  · exact List.nodup_cons.mpr ⟨hk, h⟩
  · exact List.nodup_cons.mpr ⟨fun hm => hk (List.dropLast_subset _ hm), h.sublist (List.dropLast_sublist _)⟩

theorem length_addKeys_le {cap : Nat} {keys : List κ} (hpos : 0 < cap) (h : keys.length ≤ cap) (k : κ) :
    (addKeys cap keys k).length ≤ cap := by
  unfold addKeys
  split_ifs with hk hroom
  · have := List.length_pos_of_mem hk
    rw [List.length_cons, List.length_erase_of_mem hk]
    omega
  · exact hroom
  · rw [List.length_cons, List.length_dropLast]
    omega

/-- The key an addition drops. -/
def evicted (l : Lru κ) (k : κ) : Option κ :=
  if k ∈ l.keys ∨ l.keys.length < l.cap then none else l.keys.getLast?

def add (l : Lru κ) (k : κ) : Lru κ :=
  ⟨l.cap, addKeys l.cap l.keys k, l.pos, nodup_addKeys l.nodup k, length_addKeys_le l.pos l.bounded k⟩

theorem length_erase_le_cap (l : Lru κ) (k : κ) : (l.keys.erase k).length ≤ l.cap :=
  List.length_erase_le.trans l.bounded

def remove (l : Lru κ) (k : κ) : Lru κ := ⟨l.cap, l.keys.erase k, l.pos, l.nodup.erase k, l.length_erase_le_cap k⟩

@[simp] theorem cap_add (l : Lru κ) (k : κ) : (l.add k).cap = l.cap := rfl

@[simp] theorem keys_add (l : Lru κ) (k : κ) : (l.add k).keys = addKeys l.cap l.keys k := rfl

@[simp] theorem keys_remove (l : Lru κ) (k : κ) : (l.remove k).keys = l.keys.erase k := rfl

/-- **What an addition leaves**: the key, and every other key but the one that
is dropped. -/
theorem mem_add {k x : κ} : x ∈ (l.add k).keys ↔ x = k ∨ x ∈ l.keys ∧ l.evicted k ≠ some x := by
  rw [keys_add, addKeys, evicted]
  by_cases hk : k ∈ l.keys
  · simp only [hk, if_true, true_or, List.mem_cons, l.nodup.mem_erase_iff]
    by_cases hx : x = k <;> simp [hx]
  by_cases hroom : l.keys.length < l.cap
  · simp [hk, hroom]
  have hne : l.keys ≠ [] := by
    rintro h
    have := l.pos
    simp [h, this] at hroom
  have hsplit : l.keys.dropLast ++ [l.keys.getLast hne] = l.keys := List.dropLast_concat_getLast hne
  have hnodup : (l.keys.dropLast ++ [l.keys.getLast hne]).Nodup := by
    simpa only [hsplit] using l.nodup
  have hlast : l.keys.getLast hne ∉ l.keys.dropLast := fun hm =>
    (List.nodup_append.mp hnodup).2.2 _ hm _ (List.mem_singleton_self _) rfl
  have hmem : x ∈ l.keys ↔ x ∈ l.keys.dropLast ∨ x = l.keys.getLast hne := by
    conv_lhs => rw [← hsplit]
    simp
  simp only [hk, hroom, or_self, if_false, List.mem_cons, List.getLast?_eq_some_getLast hne, ne_eq, Option.some.injEq,
    hmem]
  grind

theorem Front.add {k : κ} (h : l.Front added)
    (hfits : (added ++ [k]).toFinset.card ≤ l.cap) : (l.add k).Front (added ++ [k]) := by
  obtain ⟨front, back, hkeys, hfront⟩ := h
  have hnodup : (front ++ back).Nodup := hkeys ▸ l.nodup
  have hmem : ∀ x, x ∈ k :: front ↔ x ∈ added ++ [k] := fun x => by
    rw [List.mem_cons, List.mem_append, List.mem_singleton, hfront, or_comm]
  rw [Front, keys_add, addKeys, hkeys]
  split_ifs with hk hroom
  · by_cases hkf : k ∈ front
    · refine ⟨k :: front.erase k, back, by rw [List.erase_append_left _ hkf, List.cons_append], fun x => ?_⟩
      rw [← hmem, List.mem_cons, List.mem_cons, (List.nodup_append.mp hnodup).1.mem_erase_iff]
      by_cases hx : x = k <;> simp [hx]
    · exact ⟨k :: front, back.erase k, by rw [List.erase_append_right _ hkf, List.cons_append], hmem⟩
  · exact ⟨k :: front, back, rfl, hmem⟩
  · -- the key dropped is not one of those in front: they and the new one would not fit
    have hback : back ≠ [] := by
      rintro rfl
      rw [List.append_nil] at *
      have hcard : (k :: front).toFinset.card ≤ (added ++ [k]).toFinset.card :=
        Finset.card_le_card fun x hx => by
          rw [List.mem_toFinset] at hx ⊢
          exact (hmem x).mp hx
      rw [List.toFinset_card_of_nodup (List.nodup_cons.mpr ⟨hk, hnodup⟩), List.length_cons] at hcard
      omega
    exact ⟨k :: front, back.dropLast, by rw [List.dropLast_append_of_ne_nil hback, List.cons_append], hmem⟩

theorem cap_foldl_add (ks : List κ) (l : Lru κ) : (ks.foldl add l).cap = l.cap := by
  induction ks generalizing l with
  | nil => rfl
  | cons k ks ih => rw [List.foldl_cons, ih, cap_add]

theorem Front.foldl_add (ks : List κ) (h : l.Front added)
    (hfits : (added ++ ks).toFinset.card ≤ l.cap) : (ks.foldl Lru.add l).Front (added ++ ks) := by
  induction ks generalizing added l with
  | nil => simpa using h
  | cons k ks ih =>
    have hsub : (added ++ [k]).toFinset ⊆ (added ++ k :: ks).toFinset := fun x hx => by
      simp only [List.mem_toFinset, List.mem_append, List.mem_cons, List.not_mem_nil, or_false] at hx ⊢
      rcases hx with hx | hx
      · exact .inl hx
      · exact .inr (.inl hx)
    have hk := h.add ((Finset.card_le_card hsub).trans hfits)
    simpa using ih hk (by simpa using hfits)

/-- **Keys added in a row are all there at the end exactly when they fit.** -/
theorem mem_foldl_add (l : Lru κ) (ks : List κ) :
    (∀ k ∈ ks, k ∈ (ks.foldl add l).keys) ↔ ks.toFinset.card ≤ l.cap := by
  constructor
  · intro h
    rw [← cap_foldl_add ks l]
    refine le_trans ?_ (ks.foldl add l).bounded
    rw [← List.toFinset_card_of_nodup (ks.foldl add l).nodup]
    exact Finset.card_le_card fun x hx => List.mem_toFinset.mpr (h x (List.mem_toFinset.mp hx))
  · intro h k hk
    exact (l.front_nil.foldl_add ks (by simpa using h)).mem (by simpa using hk)

end Lru

end InferenceScheduler
