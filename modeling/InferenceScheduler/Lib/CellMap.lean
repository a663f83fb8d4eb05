/-
A shared map whose values are objects that are updated in place: Go's
`sync.Map` of counters or of queues. A key without an entry reads as the empty
object, and an entry whose object is empty again may be deleted. An update
reaches the map only as long as the key still has the object that was looked up.
-/
import InferenceScheduler.Lib.Heap

namespace InferenceScheduler

open Function (update update_of_ne update_self)

/-- `cells` are the entries, by the number of their object. -/
structure CellMap (κ α : Type*) where
  cells : κ → Option Nat
  heap : Heap α

namespace CellMap

variable {κ α : Type*} (zero : α) (m : CellMap κ α)

def empty : CellMap κ α := { cells := fun _ => none, heap := ⟨fun _ => zero, 0⟩ }

/-- What is read for a key. -/
def content (k : κ) : α := ((m.cells k).map m.heap.obj).getD zero

/-- An object is updated. -/
def set (c : Nat) (x : α) : CellMap κ α := { m with heap := m.heap.set c x }

/-- The objects of the entries exist, and no two entries share one. -/
structure WF : Prop where
  bound : ∀ k c, m.cells k = some c → c < m.heap.next
  injective : ∀ k k' c, m.cells k = some c → m.cells k' = some c → k = k'

/-- The object is, or was, that of the key, and of no other. -/
structure Owns (k : κ) (c : Nat) : Prop where
  bound : c < m.heap.next
  only : ∀ k', m.cells k' = some c → k' = k

section

variable {zero : α} {m : CellMap κ α} {k k' : κ} {c : Nat} {x : α}

theorem wf_empty : (CellMap.empty zero : CellMap κ α).WF where
  bound := nofun
  injective := nofun

theorem WF.owns (h : m.WF) (hc : m.cells k = some c) : m.Owns k c :=
  ⟨h.bound k c hc, fun k' hk' => h.injective k' k c hk' hc⟩

theorem content_of_cell (hc : m.cells k = some c) : m.content zero k = m.heap.obj c := by
  rw [content, hc]
  rfl

/-! ### Updating -/

theorem WF.set (h : m.WF) : (m.set c x).WF := ⟨h.bound, h.injective⟩

theorem Owns.set {c' : Nat} (h : m.Owns k c) : (m.set c' x).Owns k c := ⟨h.bound, h.only⟩

theorem content_set_of_cells_ne (hk : m.cells k ≠ some c) : (m.set c x).content zero k = m.content zero k := by
  cases hc : m.cells k with
  | none => rw [content, content, CellMap.set, hc]; rfl
  | some c' =>
    have hne : c' ≠ c := by
      rintro rfl
      exact hk hc
    rw [content_of_cell (m := m.set c x) hc, content_of_cell hc]
    exact Heap.set_obj_of_ne _ hne

theorem Owns.content_set_of_ne (h : m.Owns k c) (hk : k' ≠ k) : (m.set c x).content zero k' = m.content zero k' :=
  content_set_of_cells_ne fun hc => hk (h.only k' hc)

theorem content_set (hc : m.cells k = some c) : (m.set c x).content zero k = x := by
  rw [content_of_cell (m := m.set c x) hc]
  exact Heap.set_obj_self _

theorem set_self (hx : m.heap.obj c = x) : m.set c x = m := by
  subst hx
  simp [CellMap.set, Heap.set]

end

variable [DecidableEq κ]

/-- `LoadOrStore` with a new empty object. -/
def loadOrStore (k : κ) : CellMap κ α × Nat :=
  match m.cells k with
  | some c => (m, c)
  | none => ({ cells := update m.cells k (some m.heap.next), heap := m.heap.alloc zero }, m.heap.next)

def delete (k : κ) : CellMap κ α := { m with cells := update m.cells k none }

section

variable {zero : α} {m : CellMap κ α} {k k' : κ} {c : Nat} {x : α}

/-! ### Looking up -/

theorem cells_loadOrStore : (m.loadOrStore zero k).1.cells k = some (m.loadOrStore zero k).2 := by
  unfold loadOrStore
  split
  · assumption
  · exact update_self ..

theorem cells_loadOrStore_of_some (hc : m.cells k' = some c) : (m.loadOrStore zero k).1.cells k' = some c := by
  unfold loadOrStore
  split
  · exact hc
  · rename_i hnone
    have hne : k' ≠ k := by
      rintro rfl
      rw [hnone] at hc
      cases hc
    exact (update_of_ne hne ..).trans hc

theorem of_cells_loadOrStore (hc : (m.loadOrStore zero k).1.cells k' = some c) :
    m.cells k' = some c ∨ (k' = k ∧ c = m.heap.next) := by
  unfold loadOrStore at hc
  split at hc
  · exact .inl hc
  · by_cases hk : k' = k
    · subst hk
      simp only [update_self, Option.some.injEq] at hc
      exact .inr ⟨rfl, hc.symm⟩
    · simp only [update_of_ne hk] at hc
      exact .inl hc

theorem next_le_loadOrStore : m.heap.next ≤ (m.loadOrStore zero k).1.heap.next := by
  unfold loadOrStore
  split
  · exact Nat.le_refl _
  · exact Nat.le_succ _

theorem obj_loadOrStore (hc : c < m.heap.next) : (m.loadOrStore zero k).1.heap.obj c = m.heap.obj c := by
  unfold loadOrStore
  split
  · rfl
  · exact Heap.alloc_obj_of_lt _ hc

theorem WF.loadOrStore (h : m.WF) : (m.loadOrStore zero k).1.WF := by
  constructor
  · intro k' c hc
    rcases of_cells_loadOrStore hc with hc' | ⟨rfl, rfl⟩
    · exact Nat.lt_of_lt_of_le (h.bound k' c hc') next_le_loadOrStore
    · unfold CellMap.loadOrStore at hc ⊢
      split at hc
      · exact h.bound _ _ hc
      · exact Nat.lt_succ_self _
  · intro k₁ k₂ c h₁ h₂
    rcases of_cells_loadOrStore h₁ with h₁' | ⟨rfl, rfl⟩
    · rcases of_cells_loadOrStore h₂ with h₂' | ⟨-, rfl⟩
      · exact h.injective k₁ k₂ c h₁' h₂'
      · exact absurd (h.bound k₁ _ h₁') (Nat.lt_irrefl _)
    · rcases of_cells_loadOrStore h₂ with h₂ | ⟨rfl, -⟩
      · exact absurd (h.bound k₂ _ h₂) (Nat.lt_irrefl _)
      · rfl

theorem Owns.loadOrStore (h : m.Owns k' c) : (m.loadOrStore zero k).1.Owns k' c := by
  refine ⟨Nat.lt_of_lt_of_le h.bound next_le_loadOrStore, fun k'' hk => ?_⟩
  rcases of_cells_loadOrStore hk with hk | ⟨-, rfl⟩
  · exact h.only k'' hk
  · exact absurd h.bound (Nat.lt_irrefl _)

/-- **Looking a key up changes nothing that is read.** -/
theorem WF.content_loadOrStore (h : m.WF) : (m.loadOrStore zero k).1.content zero k' = m.content zero k' := by
  cases hc : m.cells k' with
  | some c =>
    rw [content_of_cell (cells_loadOrStore_of_some hc), content_of_cell hc, obj_loadOrStore (h.bound k' c hc)]
  | none =>
    have hold : m.content zero k' = zero := by
      rw [content, hc]
      rfl
    rw [hold]
    cases hc' : (m.loadOrStore zero k).1.cells k' with
    | none =>
      rw [content, hc']
      rfl
    | some c =>
      rcases of_cells_loadOrStore hc' with hold' | ⟨rfl, rfl⟩
      · rw [hc] at hold'
        cases hold'
      · rw [content_of_cell hc']
        simp only [CellMap.loadOrStore, hc, Heap.alloc_obj_self]

/-! ### Deleting -/

theorem WF.delete (h : m.WF) : (m.delete k).WF := by
  have hcells : ∀ k' c, (m.delete k).cells k' = some c → m.cells k' = some c := by
    intro k' c hc
    by_cases hk : k' = k
    · subst hk
      simp only [CellMap.delete, update_self] at hc
      cases hc
    · simpa only [CellMap.delete, update_of_ne hk] using hc
  exact ⟨fun k' c hc => h.bound k' c (hcells k' c hc),
    fun k₁ k₂ c h₁ h₂ => h.injective k₁ k₂ c (hcells k₁ c h₁) (hcells k₂ c h₂)⟩

theorem Owns.delete (h : m.Owns k' c) : (m.delete k).Owns k' c := by
  refine ⟨h.bound, fun k'' hk => ?_⟩
  by_cases he : k'' = k
  · subst he
    simp only [CellMap.delete, update_self] at hk
    cases hk
  · simp only [CellMap.delete, update_of_ne he] at hk
    exact h.only k'' hk

theorem cells_delete_of_ne (hk : k' ≠ k) : (m.delete k).cells k' = m.cells k' := update_of_ne hk ..

/-- **Deleting an entry that reads empty changes nothing that is read.** -/
theorem content_delete (h : m.content zero k = zero) : (m.delete k).content zero k' = m.content zero k' := by
  by_cases hk : k' = k
  · subst hk
    have hnone : (m.delete k').cells k' = none := update_self ..
    rw [h, content, hnone]
    rfl
  · rw [content, content, cells_delete_of_ne hk]
    rfl

end

end CellMap

end InferenceScheduler
