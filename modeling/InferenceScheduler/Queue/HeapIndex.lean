/-
The handles of a max-min heap know where its items are. Every swap moves two
items and writes their handles, so the map from handles to items by way of the
indices stays a bijection (`Indexed`), and the loops keep it by `KeptBySwaps`.
-/
import InferenceScheduler.Queue.MaxMinHeap

namespace InferenceScheduler.Queue

variable {κ ι : Type*}

namespace HeapState

open MaxMin (getElem?_swapIfInBounds)

variable {st st' : HeapState κ ι} {x y : ι} {h : HandleId} {i j : Nat}

/-- The handle of the item at each index is the heap's and has the index. -/
structure Indexed (st : HeapState κ ι) : Prop where
  nodup : st.heap.items.toList.Nodup
  index : ∀ i x, st.heap.items[i]? = some x →
    ∃ h ∈ st.heap.handles, st.mem.handle x = some h ∧ st.mem.objs.obj h = .heapItem i false
  held : ∀ h ∈ st.heap.handles, ∃ x ∈ st.heap.items, st.mem.handle x = some h
  allocated : ∀ h ∈ st.heap.handles, h < st.mem.objs.next
  sound : st.mem.panicked = false

/-- What the loops leave alone. -/
structure Moved (st st' : HeapState κ ι) : Prop where
  perm : st'.heap.items.toList.Perm st.heap.items.toList
  handles : st'.heap.handles = st.heap.handles
  byteSize : st'.heap.byteSize = st.heap.byteSize
  handle : st'.mem.handle = st.mem.handle
  next : st'.mem.objs.next = st.mem.objs.next
  objs : ∀ h ∉ st.heap.handles, st'.mem.objs.obj h = st.mem.objs.obj h

theorem Moved.refl (st : HeapState κ ι) : Moved st st := ⟨.refl _, rfl, rfl, rfl, rfl, fun _ _ => rfl⟩

theorem Moved.trans {st₁ st₂ st₃ : HeapState κ ι} (h : Moved st₁ st₂) (h' : Moved st₂ st₃) : Moved st₁ st₃ :=
  ⟨h'.perm.trans h.perm, h'.handles.trans h.handles, h'.byteSize.trans h.byteSize, h'.handle.trans h.handle,
    h'.next.trans h.next, fun k hk => (h'.objs k (h.handles ▸ hk)).trans (h.objs k hk)⟩

theorem setIndex_eq (hx : st.mem.handle x = some h) (hh : h ∈ st.heap.handles) : st.setIndex x i =
    { st with mem := { st.mem with objs := st.mem.objs.set h ((st.mem.objs.obj h).withIndex i) } } := by
  rw [setIndex, hx]
  exact if_pos hh

theorem reindex_eq (hi : st.heap.items[i]? = some x) (hx : st.mem.handle x = some h)
    (hh : h ∈ st.heap.handles) : st.reindex i =
      { st with mem := { st.mem with objs := st.mem.objs.set h ((st.mem.objs.obj h).withIndex i) } } := by
  rw [reindex, hi]
  exact setIndex_eq hx hh

theorem handle_ne {h h' : HandleId} (hi : st.mem.objs.obj h = .heapItem i false)
    (hj : st.mem.objs.obj h' = .heapItem j false) (hij : i ≠ j) : h ≠ h' := by
  rintro rfl
  rw [hi] at hj
  cases hj
  exact hij rfl

theorem swap_eq {hx hy : HandleId} (hi : st.heap.items[i]? = some x) (hj : st.heap.items[j]? = some y)
    (hxm : hx ∈ st.heap.handles) (hym : hy ∈ st.heap.handles) (hxh : st.mem.handle x = some hx)
    (hyh : st.mem.handle y = some hy) (hxo : st.mem.objs.obj hx = .heapItem i false)
    (hyo : st.mem.objs.obj hy = .heapItem j false) :
    st.swap i j =
      { mem := { st.mem with objs := (st.mem.objs.set hy (.heapItem i false)).set hx (.heapItem j false) }
        heap := { st.heap with items := st.heap.items.swapIfInBounds i j } } := by
  have hin := (Array.getElem?_eq_some_iff.mp hi).1
  have hjn := (Array.getElem?_eq_some_iff.mp hj).1
  have hi' : (st.heap.items.swapIfInBounds i j)[i]? = some y := by
    rw [getElem?_swapIfInBounds hin hjn, if_pos rfl, hj]
  have hj' : (st.heap.items.swapIfInBounds i j)[j]? = some x := by
    rw [getElem?_swapIfInBounds hin hjn]
    by_cases hji : j = i
    · subst hji
      rw [if_pos rfl, hi]
    · rw [if_neg hji, if_pos rfl, hi]
  have hobj : (st.mem.objs.set hy (.heapItem i false)).obj hx = .heapItem i false := by
    by_cases he : hx = hy
    · rw [he, Heap.set_obj_self]
    · rw [Heap.set_obj_of_ne _ he, hxo]
  let st₁ : HeapState κ ι := { st with heap := { st.heap with items := st.heap.items.swapIfInBounds i j } }
  have h₁ : st₁.reindex i = { st₁ with mem := { st.mem with objs := st.mem.objs.set hy (.heapItem i false) } } := by
    rw [reindex_eq (show st₁.heap.items[i]? = _ from hi') hyh hym]
    simp only [st₁, hyo, HandleObj.withIndex]
  have h₂ : (st₁.reindex i).reindex j = _ := reindex_eq (by rwa [reindex_heap]) (by rwa [h₁]) (by rwa [reindex_heap])
  rw [swap, h₂, h₁]
  simp only [hobj, HandleObj.withIndex]
  rfl

/-- **A swap keeps the handles' indices.** -/
theorem Indexed.swap (hs : Indexed st) (hi : i < st.heap.items.size) (hj : j < st.heap.items.size) :
    Indexed (st.swap i j) ∧ Moved st (st.swap i j) := by
  obtain ⟨x, hx⟩ : ∃ x, st.heap.items[i]? = some x := ⟨_, Array.getElem?_eq_getElem hi⟩
  obtain ⟨y, hy⟩ : ∃ y, st.heap.items[j]? = some y := ⟨_, Array.getElem?_eq_getElem hj⟩
  obtain ⟨hdx, hmx, hhx, hox⟩ := hs.index i x hx
  obtain ⟨hdy, hmy, hhy, hoy⟩ := hs.index j y hy
  have hperm : (st.heap.items.swapIfInBounds i j).toList.Perm st.heap.items.toList := by
    rw [Array.swapIfInBounds_def, dif_pos hi, dif_pos hj]
    exact (Array.swap_perm hi hj).toList
  rw [swap_eq hx hy hmx hmy hhx hhy hox hoy]
  refine ⟨⟨hperm.nodup_iff.mpr hs.nodup, fun k z hz => ?_, fun h hh => ?_, hs.allocated, hs.sound⟩,
    ⟨hperm, rfl, rfl, rfl, rfl, fun h hh => ?_⟩⟩
  · rw [getElem?_swapIfInBounds hi hj] at hz
    by_cases hkj : k = j
    · -- the item from `i` stands at `j`
      subst hkj
      have hzx : z = x := by
        split at hz
        · rename_i hki
          subst hki
          rw [hx] at hz
          exact (Option.some.inj hz).symm
        · rw [if_pos rfl, hx] at hz
          exact (Option.some.inj hz).symm
      subst hzx
      exact ⟨hdx, hmx, hhx, Heap.set_obj_self _⟩
    · by_cases hki : k = i
      · subst hki
        rw [if_pos rfl, hy] at hz
        cases hz
        refine ⟨hdy, hmy, hhy, ?_⟩
        rw [Heap.set_obj_of_ne _ (handle_ne hoy hox (Ne.symm hkj)), Heap.set_obj_self]
      · rw [if_neg hki, if_neg hkj] at hz
        obtain ⟨hdz, hmz, hhz, hoz⟩ := hs.index k z hz
        refine ⟨hdz, hmz, hhz, ?_⟩
        rw [Heap.set_obj_of_ne _ (handle_ne hoz hox hki), Heap.set_obj_of_ne _ (handle_ne hoz hoy hkj), hoz]
  · obtain ⟨z, hz, he⟩ := hs.held h hh
    exact ⟨z, Array.mem_toList_iff.mp (hperm.mem_iff.mpr (Array.mem_toList_iff.mpr hz)), he⟩
  · show ((st.mem.objs.set hdy _).set hdx _).obj h = _
    have hnx : h ≠ hdx := fun he => hh (he ▸ hmx)
    have hny : h ≠ hdy := fun he => hh (he ▸ hmy)
    rw [Heap.set_obj_of_ne _ hnx, Heap.set_obj_of_ne _ hny]

theorem keptBySwaps_indexed (st₀ : HeapState κ ι) :
    KeptBySwaps (slots κ ι) fun st => Indexed st ∧ Moved st₀ st := fun st i j hs hi hj => by
  obtain ⟨hs', hm⟩ := hs.1.swap hi hj
  exact ⟨hs', hs.2.trans hm⟩

/-! ## Add -/

variable (less : ι → ι → Bool) (size : ι → BitVec 64)

/-- The state `push` calls `up` on. -/
def appended [DecidableEq ι] (st : HeapState κ ι) (x : ι) : HeapState κ ι :=
  { mem := st.mem.newHandle x (.heapItem st.heap.items.size false)
    heap := { st.heap with
      items := st.heap.items.push x
      handles := insert st.mem.objs.next st.heap.handles } }

theorem push_eq [DecidableEq ι] (st : HeapState κ ι) (x : ι) :
    st.push less x = up (slots κ ι) less (st.appended x) st.heap.items.size := rfl

theorem Indexed.appended [DecidableEq ι] (hs : Indexed st) (hx : x ∉ st.heap.items) : Indexed (st.appended x) := by
  have hne : ∀ y ∈ st.heap.items, y ≠ x := fun y hy he => hx (he ▸ hy)
  have hhandle : ∀ y ∈ st.heap.items, (st.appended x).mem.handle y = st.mem.handle y := fun y hy =>
    Function.update_of_ne (hne y hy) _ _
  have hself : (st.appended x).mem.handle x = some st.mem.objs.next := Function.update_self ..
  refine ⟨?_, fun i y hy => ?_, fun h hh => ?_, fun h hh => ?_, hs.sound⟩
  · show (st.heap.items.push x).toList.Nodup
    rw [Array.toList_push, List.nodup_append]
    refine ⟨hs.nodup, List.nodup_singleton x, fun a ha b hb => ?_⟩
    rw [List.mem_singleton.mp hb]
    exact hne a (Array.mem_toList_iff.mp ha)
  · have hy' : (st.heap.items.push x)[i]? = some y := hy
    rw [Array.getElem?_push] at hy'
    split at hy'
    · rename_i hi
      cases hy'
      exact ⟨_, Finset.mem_insert_self .., hself, hi ▸ Heap.alloc_obj_self _⟩
    · obtain ⟨h, hh, hyh, ho⟩ := hs.index i y hy'
      refine ⟨h, Finset.mem_insert_of_mem hh, ?_, ?_⟩
      · rw [hhandle y (Array.mem_of_getElem? hy'), hyh]
      · rw [← ho]
        exact Heap.alloc_obj_of_lt _ (hs.allocated h hh)
  · rcases Finset.mem_insert.mp hh with rfl | hh
    · exact ⟨x, Array.mem_push_self, hself⟩
    · obtain ⟨y, hy, hyh⟩ := hs.held h hh
      exact ⟨y, Array.mem_push_of_mem _ hy, by rw [hhandle y hy, hyh]⟩
  · rcases Finset.mem_insert.mp hh with rfl | hh
    · exact Nat.lt_succ_self _
    · exact Nat.lt_succ_of_lt (hs.allocated h hh)

/-- What `Add` of the item `x` does. -/
structure Added [DecidableEq ι] (st st' : HeapState κ ι) (size : ι → BitVec 64) (x : ι) : Prop where
  perm : st'.heap.items.toList.Perm (x :: st.heap.items.toList)
  handles : st'.heap.handles = insert st.mem.objs.next st.heap.handles
  byteSize : st'.heap.byteSize = st.heap.byteSize + size x
  handle : st'.mem.handle = Function.update st.mem.handle x (some st.mem.objs.next)
  next : st'.mem.objs.next = st.mem.objs.next + 1
  objs : ∀ h, h ≠ st.mem.objs.next → h ∉ st.heap.handles → st'.mem.objs.obj h = st.mem.objs.obj h

/-- **What `Add` does.** -/
theorem add_spec [DecidableEq ι] (hs : Indexed st) (hx : x ∉ st.heap.items) :
    Indexed (st.add less size x) ∧ Added st (st.add less size x) size x := by
  have hlast : st.heap.items.size < ((slots κ ι).items (st.appended x)).size := by
    simp [slots, HeapState.appended]
  obtain ⟨hi, hm⟩ : Indexed (st.push less x) ∧ Moved (st.appended x) (st.push less x) :=
    (keptBySwaps_indexed (st.appended x)).up ⟨hs.appended hx, .refl _⟩ hlast
  refine ⟨⟨hi.nodup, hi.index, hi.held, hi.allocated, hi.sound⟩, ?_, hm.handles, ?_, hm.handle, hm.next,
    fun h hne hh => ?_⟩
  · refine hm.perm.trans ?_
    show (st.heap.items.push x).toList.Perm _
    rw [Array.toList_push]
    exact List.perm_append_singleton x _
  · exact congrArg (· + size x) hm.byteSize
  · refine (hm.objs h fun hm => ?_).trans (Memory.newHandle_obj_of_ne hne)
    exact (Finset.mem_insert.mp hm).elim hne hh

/-! ## Remove -/

theorem Indexed.item (hs : Indexed st) (hh : h ∈ st.heap.handles) :
    ∃ i x, st.heap.items[i]? = some x ∧ st.mem.handle x = some h ∧ st.mem.objs.obj h = .heapItem i false := by
  obtain ⟨x, hx, hxh⟩ := hs.held h hh
  obtain ⟨i, hi⟩ := Array.mem_iff_getElem?.mp hx
  obtain ⟨h', hh', hxh', ho⟩ := hs.index i x hi
  rw [hxh] at hxh'
  cases hxh'
  exact ⟨i, x, hi, hxh, ho⟩

theorem Indexed.dropLast {ys : Array ι} (hs : Indexed st) (hx : st.heap.items = ys.push x)
    (hxh : st.mem.handle x = some h) : Indexed (st.dropLast size h x) := by
  have hpop : (st.dropLast size h x).heap.items = ys := by
    show st.heap.items.pop = ys
    rw [hx, Array.pop_push]
  have hnodup := hs.nodup
  rw [hx, Array.toList_push, List.nodup_append] at hnodup
  have hlast : st.heap.items[ys.size]? = some x := by rw [hx, Array.getElem?_push_size]
  obtain ⟨h', hh', hxh', hxo⟩ := hs.index ys.size x hlast
  rw [hxh] at hxh'
  cases hxh'
  refine ⟨hpop ▸ hnodup.1, fun i y hy => ?_, fun h₂ hh₂ => ?_, fun h₂ hh₂ => ?_, hs.sound⟩
  · rw [hpop] at hy
    have hi : i < ys.size := (Array.getElem?_eq_some_iff.mp hy).1
    have hy' : st.heap.items[i]? = some y := by rw [hx, Array.getElem?_push, if_neg (Nat.ne_of_lt hi), hy]
    obtain ⟨hd, hhd, hyh, hyo⟩ := hs.index i y hy'
    exact ⟨hd, Finset.mem_erase.mpr ⟨handle_ne hyo hxo (Nat.ne_of_lt hi), hhd⟩, hyh, hyo⟩
  · obtain ⟨hne, hh₂⟩ := Finset.mem_erase.mp hh₂
    obtain ⟨y, hy, hyh⟩ := hs.held h₂ hh₂
    refine ⟨y, ?_, hyh⟩
    rw [hx, Array.mem_push] at hy
    rcases hy with hy | rfl
    · rwa [hpop]
    · rw [hxh, Option.some.injEq] at hyh
      exact absurd hyh.symm hne
  · exact hs.allocated h₂ (Finset.mem_of_mem_erase hh₂)

/-- What `Remove` of the item `x` by its handle `h` does. -/
structure Removed (st st' : HeapState κ ι) (size : ι → BitVec 64) (h : HandleId) (x : ι) : Prop where
  perm : (x :: st'.heap.items.toList).Perm st.heap.items.toList
  handles : st'.heap.handles = st.heap.handles.erase h
  byteSize : st'.heap.byteSize = st.heap.byteSize - size x
  handle : st'.mem.handle = st.mem.handle
  next : st'.mem.objs.next = st.mem.objs.next
  objs : ∀ h' ∉ st.heap.handles, st'.mem.objs.obj h' = st.mem.objs.obj h'
  invalidated : ∃ i, st'.mem.objs.obj h = .heapItem i true

theorem Indexed.invalidate (hs : Indexed st) (hh : h ∉ st.heap.handles) :
    Indexed { st with mem := st.mem.invalidate h } := by
  refine ⟨hs.nodup, fun i x hx => ?_, hs.held, hs.allocated, hs.sound⟩
  obtain ⟨h', hh', hxh, ho⟩ := hs.index i x hx
  have hne : h' ≠ h := fun he => hh (he ▸ hh')
  exact ⟨h', hh', hxh, (Heap.set_obj_of_ne _ hne).trans ho⟩

/-- The item at `i` has been swapped to the end and cut off. -/
def cut (st : HeapState κ ι) (h : HandleId) (i : Nat) (x : ι) : HeapState κ ι :=
  (st.swap i (st.heap.items.size - 1)).dropLast size h x

theorem remove_eq (hh : h ∈ st.heap.handles) (hi : st.heap.items[i]? = some x)
    (ho : st.mem.objs.obj h = .heapItem i false) : st.remove less size (some h) =
      let st' := if i < st.heap.items.size - 1 then down (slots κ ι) less (st.cut size h i x) i
        else st.dropLast size h x
      ({ st' with mem := st'.mem.invalidate h }, .ok x) := by
  simp only [remove, ho, HandleObj.isInvalidated, Bool.false_eq_true, if_false, hh, not_true_eq_false, hi]
  rfl

theorem Removed.dropLast {ys : Array ι} (hx : st.heap.items = ys.push x) (hh : h ∈ st.heap.handles)
    (ho : st.mem.objs.obj h = .heapItem i false) (hm : Moved (st.dropLast size h x) st') :
    Removed st { st' with mem := st'.mem.invalidate h } size h x := by
  have hpop : (st.dropLast size h x).heap.items = ys := by
    show st.heap.items.pop = ys
    rw [hx, Array.pop_push]
  have hnot : h ∉ (st.dropLast size h x).heap.handles := Finset.notMem_erase h _
  refine ⟨?_, hm.handles, hm.byteSize, hm.handle, hm.next, fun h' hh' => ?_, i, ?_⟩
  · rw [hx, Array.toList_push]
    have hperm := hm.perm
    rw [hpop] at hperm
    exact (hperm.cons x).trans (List.perm_append_singleton x _).symm
  · have hne : h' ≠ h := fun he => hh' (he ▸ hh)
    exact (Heap.set_obj_of_ne _ hne).trans (hm.objs h' fun hm => hh' (Finset.mem_of_mem_erase hm))
  · show (st'.mem.objs.set h _).obj h = _
    rw [Heap.set_obj_self, hm.objs h hnot]
    show (st.mem.objs.obj h).invalidate = _
    rw [ho]
    rfl

theorem Moved.removed (hm : Moved st st') {st₂ : HeapState κ ι} (h₂ : Removed st' st₂ size h x) :
    Removed st st₂ size h x :=
  ⟨h₂.perm.trans hm.perm, hm.handles ▸ h₂.handles, hm.byteSize ▸ h₂.byteSize, h₂.handle.trans hm.handle,
    h₂.next.trans hm.next, fun h' hh' => (h₂.objs h' (hm.handles ▸ hh')).trans (hm.objs h' hh'), h₂.invalidated⟩

theorem swap_last (hi : st.heap.items[i]? = some x) :
    ∃ ys : Array ι, (st.swap i (st.heap.items.size - 1)).heap.items = ys.push x ∧
      ys = (st.heap.items.swapIfInBounds i (st.heap.items.size - 1)).pop := by
  have hin := (Array.getElem?_eq_some_iff.mp hi).1
  have hback : (st.heap.items.swapIfInBounds i (st.heap.items.size - 1)).back? = some x := by
    rw [Array.back?_eq_getElem?, Array.size_swapIfInBounds, getElem?_swapIfInBounds hin (by omega)]
    split
    · rename_i he
      rw [he, hi]
    · rw [if_pos rfl, hi]
  obtain ⟨ys, hys⟩ := Array.back?_eq_some_iff.mp hback
  exact ⟨ys, by rw [swap_heap, hys], by rw [hys, Array.pop_push]⟩

/-- **What `Remove` does** with a handle of the heap. -/
theorem remove_spec (hs : Indexed st) (hh : h ∈ st.heap.handles) (hi : st.heap.items[i]? = some x)
    (hxh : st.mem.handle x = some h) (ho : st.mem.objs.obj h = .heapItem i false) :
    ∃ st', st.remove less size (some h) = (st', .ok x) ∧ Indexed st' ∧ Removed st st' size h x := by
  have hin := (Array.getElem?_eq_some_iff.mp hi).1
  refine ⟨_, remove_eq less size hh hi ho, ?_⟩
  by_cases hlt : i < st.heap.items.size - 1
  · rw [if_pos hlt]
    obtain ⟨hs₁, hm₁⟩ := hs.swap hin (show st.heap.items.size - 1 < _ by omega)
    obtain ⟨ys, hys, -⟩ := swap_last hi
    have hxh₁ : (st.swap i (st.heap.items.size - 1)).mem.handle x = some h := by rw [hm₁.handle, hxh]
    have hcut : Indexed (st.cut size h i x) := hs₁.dropLast size hys hxh₁
    obtain ⟨hs₂, hm₂⟩ : Indexed (down (slots κ ι) less (st.cut size h i x) i) ∧
        Moved (st.cut size h i x) (down (slots κ ι) less (st.cut size h i x) i) :=
      (keptBySwaps_indexed (st.cut size h i x)).down ⟨hcut, .refl _⟩
    -- the swap wrote the removed item's own handle as well
    obtain ⟨h', hh', hxh', ho'⟩ := hs₁.index ys.size x (by rw [hys, Array.getElem?_push_size])
    rw [hxh₁] at hxh'
    cases hxh'
    refine ⟨hs₂.invalidate ?_, hm₁.removed size (.dropLast size hys hh' ho' hm₂)⟩
    rw [hm₂.handles]
    exact Finset.notMem_erase h _
  · rw [if_neg hlt]
    obtain ⟨ys, hys⟩ : ∃ ys : Array ι, st.heap.items = ys.push x := by
      refine Array.back?_eq_some_iff.mp ?_
      rw [Array.back?_eq_getElem?, ← hi]
      congr 1
      omega
    exact ⟨(hs.dropLast size hys hxh).invalidate (Finset.notMem_erase h _), .dropLast size hys hh ho (.refl _)⟩

theorem remove_error {handle : Option HandleId} (hh : ∀ h', handle = some h' → h' ∉ st.heap.handles) :
    ∃ e, st.remove less size handle = (st, .error e) := by
  cases handle with
  | none => exact ⟨_, rfl⟩
  | some h =>
    unfold remove
    dsimp only
    split
    · exact ⟨_, rfl⟩
    · split
      · rw [if_pos (hh h rfl)]
        exact ⟨_, rfl⟩
      · exact ⟨_, rfl⟩

/-! ## Cleanup and Drain -/

/-- The handles are the items', whatever their indices. -/
structure Held (st : HeapState κ ι) : Prop where
  nodup : st.heap.items.toList.Nodup
  handle : ∀ x ∈ st.heap.items, ∃ h ∈ st.heap.handles, st.mem.handle x = some h ∧
    ∃ i, st.mem.objs.obj h = .heapItem i false
  injective : ∀ x ∈ st.heap.items, ∀ y ∈ st.heap.items, st.mem.handle x = st.mem.handle y → x = y
  held : ∀ h ∈ st.heap.handles, ∃ x ∈ st.heap.items, st.mem.handle x = some h
  allocated : ∀ h ∈ st.heap.handles, h < st.mem.objs.next
  sound : st.mem.panicked = false

theorem Indexed.injective (hs : Indexed st) (hx : x ∈ st.heap.items) (hy : y ∈ st.heap.items)
    (he : st.mem.handle x = st.mem.handle y) : x = y := by
  obtain ⟨i, hi⟩ := Array.mem_iff_getElem?.mp hx
  obtain ⟨j, hj⟩ := Array.mem_iff_getElem?.mp hy
  obtain ⟨h, -, hxh, ho⟩ := hs.index i x hi
  obtain ⟨h', -, hyh, ho'⟩ := hs.index j y hj
  rw [hxh, hyh, Option.some.injEq] at he
  rw [he, ho'] at ho
  cases ho
  rw [hi] at hj
  exact Option.some.inj hj

theorem reindexAll_spec (hs : Held st) : ∀ n ≤ st.heap.items.size,
    (reindexAll st n).heap = st.heap ∧ (reindexAll st n).mem.panicked = false ∧ Moved st (reindexAll st n) ∧
      ∀ k x h, st.heap.items[k]? = some x → st.mem.handle x = some h →
        (k < n → (reindexAll st n).mem.objs.obj h = .heapItem k false) ∧
        ∃ i, (reindexAll st n).mem.objs.obj h = .heapItem i false
  | 0, _ => by
    refine ⟨rfl, hs.sound, .refl st, fun k x h hx hxh => ⟨fun hk => absurd hk (Nat.not_lt_zero k), ?_⟩⟩
    obtain ⟨h', -, hxh', hi⟩ := hs.handle x (Array.mem_of_getElem? hx)
    rw [hxh, Option.some.injEq] at hxh'
    exact hxh' ▸ hi
  | n + 1, hn => by
    obtain ⟨hheap, hsound, hm, hobj⟩ := reindexAll_spec hs n (Nat.le_of_succ_le hn)
    obtain ⟨y, hy⟩ : ∃ y, st.heap.items[n]? = some y := ⟨_, Array.getElem?_eq_getElem hn⟩
    obtain ⟨hd, hhd, hyh, -⟩ := hs.handle y (Array.mem_of_getElem? hy)
    obtain ⟨i, hi⟩ := (hobj n y hd hy hyh).2
    have heq : (reindexAll st n).reindex n = { reindexAll st n with
        mem := { (reindexAll st n).mem with objs := (reindexAll st n).mem.objs.set hd (.heapItem n false) } } := by
      rw [reindex_eq (by rwa [hheap]) (by rwa [hm.handle]) (by rwa [hheap]), hi]
      rfl
    rw [reindexAll, heq]
    refine ⟨hheap, hsound, hm.trans ⟨.refl _, rfl, rfl, rfl, rfl, fun h hh => ?_⟩, fun k x h hx hxh => ?_⟩
    · have hne : h ≠ hd := fun he => hh (he ▸ hm.handles.symm ▸ hhd)
      exact Heap.set_obj_of_ne _ hne
    · by_cases hkn : k = n
      · subst hkn
        rw [hy] at hx
        cases hx
        rw [hyh] at hxh
        cases hxh
        exact ⟨fun _ => Heap.set_obj_self _, k, Heap.set_obj_self _⟩
      · have hne : h ≠ hd := by
          rintro rfl
          have hxy := hs.injective x (Array.mem_of_getElem? hx) y (Array.mem_of_getElem? hy) (hxh.trans hyh.symm)
          subst hxy
          rw [← Array.getElem?_toList] at hx hy
          have hk := (List.getElem?_eq_some_iff.mp hx).1
          exact hkn ((List.getElem?_inj hk hs.nodup).mp (hx.trans hy.symm))
        obtain ⟨hlt, i, hi⟩ := hobj k x h hx hxh
        refine ⟨fun hk => ?_, i, ?_⟩
        · exact (Heap.set_obj_of_ne _ hne).trans (hlt (by omega))
        · exact (Heap.set_obj_of_ne _ hne).trans hi

theorem Held.reindexAll (hs : Held st) : Indexed (reindexAll st st.heap.items.size) ∧
    Moved st (reindexAll st st.heap.items.size) := by
  obtain ⟨hheap, hsound, hm, hobj⟩ := reindexAll_spec hs st.heap.items.size (Nat.le_refl _)
  refine ⟨⟨?_, fun i x hx => ?_, ?_, ?_, hsound⟩, hm⟩
  · rw [hheap]
    exact hs.nodup
  · rw [hheap] at hx ⊢
    obtain ⟨h, hh, hxh, -⟩ := hs.handle x (Array.mem_of_getElem? hx)
    exact ⟨h, hh, by rw [hm.handle, hxh], (hobj i x h hx hxh).1 (Array.getElem?_eq_some_iff.mp hx).1⟩
  · rw [hheap, hm.handle]
    exact hs.held
  · rw [hheap, hm.next]
    exact hs.allocated

theorem foldl_discard : ∀ (l : List ι) (st : HeapState κ ι),
    (l.foldl (discard · size) st).mem = st.mem.invalidateItems l ∧
    (l.foldl (discard · size) st).heap.items = st.heap.items ∧
    (l.foldl (discard · size) st).heap.byteSize = st.heap.byteSize - (l.map size).sum ∧
    ∀ h, h ∈ (l.foldl (discard · size) st).heap.handles ↔
      h ∈ st.heap.handles ∧ ∀ x ∈ l, st.mem.handle x ≠ some h
  | [], st => ⟨rfl, rfl, by simp, fun h => by simp⟩
  | y :: l, st => by
    obtain ⟨hmem, hitems, hbytes, hhandles⟩ := foldl_discard l (st.discard size y)
    rw [List.foldl_cons]
    refine ⟨hmem, hitems, ?_, fun h => ?_⟩
    · rw [hbytes, List.map_cons, List.sum_cons]
      exact sub_sub ..
    · rw [hhandles, show (st.discard size y).mem.handle = st.mem.handle from st.mem.invalidateItem_handle y,
        List.forall_mem_cons, ← and_assoc]
      refine and_congr_left fun _ => ?_
      cases hy : st.mem.handle y with
      | none => simp [discard, hy]
      | some h' => simp [discard, hy, Finset.mem_erase, and_comm, eq_comm]

/-- What `Cleanup` and `Drain` do to a heap when they remove the items `l`. -/
structure Cleaned (st st' : HeapState κ ι) (size : ι → BitVec 64) (l : List ι) : Prop where
  perm : (l ++ st'.heap.items.toList).Perm st.heap.items.toList
  handles : ∀ h, h ∈ st'.heap.handles ↔ h ∈ st.heap.handles ∧ ∀ x ∈ l, st.mem.handle x ≠ some h
  byteSize : st'.heap.byteSize = st.heap.byteSize - (l.map size).sum
  handle : st'.mem.handle = st.mem.handle
  next : st'.mem.objs.next = st.mem.objs.next
  objs : ∀ h ∉ st.heap.handles, st'.mem.objs.obj h = st.mem.objs.obj h
  invalidated : ∀ x ∈ l, ∀ h, st.mem.handle x = some h → ∃ i, st'.mem.objs.obj h = .heapItem i true

theorem Removed.cleaned (hr : Removed st st' size h x) (hxh : st.mem.handle x = some h) :
    Cleaned st st' size [x] := by
  refine ⟨hr.perm, fun h' => ?_, ?_, hr.handle, hr.next, hr.objs, fun y hy h' hyh => ?_⟩
  · rw [hr.handles, Finset.mem_erase, and_comm, List.forall_mem_singleton, hxh]
    simp [eq_comm]
  · rw [hr.byteSize, List.map_singleton, List.sum_singleton]
  · rw [List.mem_singleton.mp hy, hxh, Option.some.injEq] at hyh
    exact hyh ▸ hr.invalidated

/-- The heap after the first loop of `Cleanup`, with the items it keeps. -/
def kept (st : HeapState κ ι) (predicate : ι → Bool) : HeapState κ ι :=
  let st' := (st.heap.items.toList.filter predicate).foldl (discard · size) st
  { st' with heap := { st'.heap with items := (st.heap.items.toList.filter (!predicate ·)).toArray } }

theorem cleanup_eq (st : HeapState κ ι) (predicate : ι → Bool) : st.cleanup less size predicate =
    if st.heap.items.toList.filter predicate = [] then (st, [])
    else
      (heapify (slots κ ι) less (reindexAll (st.kept size predicate) (st.kept size predicate).heap.items.size)
        ((st.kept size predicate).heap.items.size / 2), st.heap.items.toList.filter predicate) := by
  unfold cleanup
  dsimp only
  split
  · rename_i he
    rw [he]
    rfl
  · rfl

theorem Indexed.handle (hs : Indexed st) (hx : x ∈ st.heap.items) : ∃ h ∈ st.heap.handles,
    st.mem.handle x = some h ∧ ∃ i, st.mem.objs.obj h = .heapItem i false := by
  obtain ⟨i, hi⟩ := Array.mem_iff_getElem?.mp hx
  obtain ⟨h, hh, hxh, ho⟩ := hs.index i x hi
  exact ⟨h, hh, hxh, i, ho⟩

theorem Indexed.kept (hs : Indexed st) (p : ι → Bool) : Held (st.kept size p) := by
  obtain ⟨hmem, hitems, hbytes, hhandles⟩ := foldl_discard size (st.heap.items.toList.filter p) st
  have hmem' : (st.kept size p).mem = st.mem.invalidateItems (st.heap.items.toList.filter p) := hmem
  have hmemK : ∀ x, x ∈ (st.kept size p).heap.items ↔ x ∈ st.heap.items ∧ !p x := fun x => by
    simp [HeapState.kept]
  -- no item removed has the handle of an item kept
  have hother : ∀ x ∈ st.heap.items, !p x → ∀ y ∈ st.heap.items.toList.filter p,
      st.mem.handle y ≠ st.mem.handle x := by
    intro x hx hpx y hy he
    obtain ⟨hy, hpy⟩ := List.mem_filter.mp hy
    rw [hs.injective (Array.mem_toList_iff.mp hy) hx he] at hpy
    simp [hpy] at hpx
  refine ⟨(hs.nodup.filter _), fun x hx => ?_, fun x hx y hy he => ?_, fun h hh => ?_, fun h hh => ?_, ?_⟩
  · obtain ⟨hx, hpx⟩ := (hmemK x).mp hx
    obtain ⟨h, hh, hxh, i, ho⟩ := hs.handle hx
    have hne : ∀ y ∈ st.heap.items.toList.filter p, st.mem.handle y ≠ some h := fun y hy =>
      hxh ▸ hother x hx hpx y hy
    refine ⟨h, (hhandles h).mpr ⟨hh, hne⟩, ?_, i, ?_⟩
    · rw [hmem', Memory.invalidateItems_handle, hxh]
    · rw [hmem', Memory.invalidateItems_obj_of_ne hne, ho]
  · rw [hmem', Memory.invalidateItems_handle] at he
    exact hs.injective ((hmemK x).mp hx).1 ((hmemK y).mp hy).1 he
  · obtain ⟨hh, hne⟩ := (hhandles h).mp hh
    obtain ⟨x, hx, hxh⟩ := hs.held h hh
    refine ⟨x, (hmemK x).mpr ⟨hx, ?_⟩, ?_⟩
    · rw [Bool.not_eq_true']
      by_contra hpx
      exact hne x (List.mem_filter.mpr ⟨Array.mem_toList_iff.mpr hx, by simpa using hpx⟩) hxh
    · rw [hmem', Memory.invalidateItems_handle, hxh]
  · rw [hmem', Memory.invalidateItems_next]
    exact hs.allocated h ((hhandles h).mp hh).1
  · rw [hmem', Memory.invalidateItems_panicked, hs.sound]

/-- **What `Cleanup` does.** -/
theorem cleanup_spec (hs : Indexed st) (p : ι → Bool) :
    ∃ st', st.cleanup less size p = (st', st.heap.items.toList.filter p) ∧ Indexed st' ∧
      Cleaned st st' size (st.heap.items.toList.filter p) := by
  rw [cleanup_eq]
  split
  · rename_i he
    rw [he]
    exact ⟨st, rfl, hs, ⟨.refl _, by simp, by simp, rfl, rfl, fun _ _ => rfl, by simp⟩⟩
  · obtain ⟨hmem, hitems, hbytes, hhandles⟩ := foldl_discard size (st.heap.items.toList.filter p) st
    obtain ⟨hs₁, hm₁⟩ := (hs.kept size p).reindexAll
    obtain ⟨hs₂, hm₂⟩ := (keptBySwaps_indexed (st.kept size p)).heapify
      ((st.kept size p).heap.items.size / 2) ⟨hs₁, hm₁⟩
    refine ⟨_, rfl, hs₂, ⟨?_, fun h => ?_, ?_, ?_, ?_, fun h hh => ?_, fun x hx h hxh => ?_⟩⟩
    · refine (hm₂.perm.append_left _).trans ?_
      exact List.filter_append_perm p st.heap.items.toList
    · rw [hm₂.handles]
      exact hhandles h
    · rw [hm₂.byteSize]
      exact hbytes
    · rw [hm₂.handle]
      exact (congrArg Memory.handle hmem).trans (Memory.invalidateItems_handle _ _)
    · rw [hm₂.next]
      exact (congrArg (·.objs.next) hmem).trans (Memory.invalidateItems_next _ _)
    · rw [hm₂.objs h fun hh' => hh ((hhandles h).mp hh').1]
      refine (congrArg (·.objs.obj h) hmem).trans (Memory.invalidateItems_obj_of_ne fun x hx hxh => hh ?_)
      obtain ⟨h', hh', hxh', -⟩ := hs.handle (Array.mem_toList_iff.mp (List.mem_filter.mp hx).1)
      rw [hxh, Option.some.injEq] at hxh'
      exact hxh' ▸ hh'
    · obtain ⟨h', -, hxh', i, ho⟩ := hs.handle (Array.mem_toList_iff.mp (List.mem_filter.mp hx).1)
      rw [hxh] at hxh'
      cases hxh'
      refine ⟨i, ?_⟩
      rw [hm₂.objs h fun hh' => ((hhandles h).mp hh').2 x hx hxh]
      refine (congrArg (·.objs.obj h) hmem).trans ?_
      show (st.mem.invalidateItems _).objs.obj h = _
      rw [Memory.invalidateItems_obj hx hxh, ho]
      rfl

/-- **What `Drain` does.** -/
theorem drain_spec (hs : Indexed st) (hb : st.heap.byteSize = (st.heap.items.toList.map size).sum) :
    Indexed st.drain.1 ∧ Cleaned st st.drain.1 size st.heap.items.toList := by
  have hmem : st.drain.1.mem = st.mem.invalidateItems st.heap.items.toList := rfl
  have hheap : st.drain.1.heap = {} := rfl
  refine ⟨⟨?_, ?_, ?_, ?_, ?_⟩, ⟨?_, fun h => ?_, ?_, ?_, ?_, fun h hh => ?_, fun x hx h hxh => ?_⟩⟩
  · rw [hheap]
    exact List.nodup_nil
  · rw [hheap]
    simp
  · rw [hheap]
    simp
  · rw [hheap]
    simp
  · rw [hmem, Memory.invalidateItems_panicked, hs.sound]
  · rw [hheap]
    simp
  · rw [hheap]
    simp only [Finset.notMem_empty, false_iff, not_and, not_forall]
    intro hh
    obtain ⟨x, hx, hxh⟩ := hs.held h hh
    exact ⟨x, Array.mem_toList_iff.mpr hx, fun hn => hn hxh⟩
  · rw [hheap, hb]
    exact (sub_self _).symm
  · rw [hmem, Memory.invalidateItems_handle]
  · rw [hmem, Memory.invalidateItems_next]
  · rw [hmem]
    refine Memory.invalidateItems_obj_of_ne fun x hx hxh => hh ?_
    obtain ⟨h', hh', hxh', -⟩ := hs.handle (Array.mem_toList_iff.mp hx)
    rw [hxh, Option.some.injEq] at hxh'
    exact hxh' ▸ hh'
  · obtain ⟨h', -, hxh', i, ho⟩ := hs.handle (Array.mem_toList_iff.mp hx)
    rw [hxh] at hxh'
    cases hxh'
    refine ⟨i, ?_⟩
    rw [hmem, Memory.invalidateItems_obj hx hxh, ho]
    rfl

end HeapState

end InferenceScheduler.Queue
