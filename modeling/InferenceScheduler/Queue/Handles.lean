/-
Queue items and their handles (`framework/interface/flowcontrol/request.go`,
`contracts/queue.go`). A handle is an object that a queue's `Add` makes for an
item and stores in it with `SetHandle`; all queues share one memory. An item is
known by its identity, a value of `ι`.
-/
import InferenceScheduler.Lib.Heap
import Mathlib.Data.BitVec

namespace InferenceScheduler.Queue

abbrev HandleId := Nat

/-- A handle's identity also stands for the list element it is made with. -/
inductive HandleObj (κ ι : Type*)
  /-- `heapItem`. Its `item` field is never read. -/
  | heapItem (index : Nat) (isInvalidated : Bool)
  /-- `listItemHandle`, with the value of its element. -/
  | listItemHandle (value : ι) (owner : κ) (isInvalidated : Bool)
  /-- A handle of another implementation. -/
  | other (isInvalidated : Bool)
  deriving DecidableEq

namespace HandleObj

variable {κ ι : Type*}

def isInvalidated : HandleObj κ ι → Bool
  | .heapItem _ b | .listItemHandle _ _ b | .other b => b

def invalidate : HandleObj κ ι → HandleObj κ ι
  | .heapItem i _ => .heapItem i true
  | .listItemHandle x q _ => .listItemHandle x q true
  | .other _ => .other true

@[simp] theorem isInvalidated_invalidate (o : HandleObj κ ι) : o.invalidate.isInvalidated = true := by
  cases o <;> rfl

/-- The field `index` of a `heapItem` is assigned. -/
def withIndex (i : Nat) : HandleObj κ ι → HandleObj κ ι
  | .heapItem _ b => .heapItem i b
  | o => o

end HandleObj

/-- `panicked`: an access through a nil pointer or beyond the end of a slice. -/
structure Memory (κ ι : Type*) where
  objs : Heap (HandleObj κ ι) := { obj := fun _ => .other true }
  /-- `Handle`, as the last `SetHandle` left it. -/
  handle : ι → Option HandleId := fun _ => none
  panicked : Bool := false

namespace Memory

variable {κ ι : Type*} (mem : Memory κ ι)

/-- A new handle, set in its item. -/
def newHandle [DecidableEq ι] (x : ι) (o : HandleObj κ ι) : Memory κ ι :=
  { mem with objs := mem.objs.alloc o, handle := Function.update mem.handle x (some mem.objs.next) }

def invalidate (h : HandleId) : Memory κ ι :=
  { mem with objs := mem.objs.set h (mem.objs.obj h).invalidate }

/-- The item's handle is invalidated, if it has one. -/
def invalidateItem (x : ι) : Memory κ ι :=
  match mem.handle x with
  | some h => mem.invalidate h
  | none => mem

def panic : Memory κ ι := { mem with panicked := true }

section

variable {mem} [DecidableEq ι] {x y : ι} {o : HandleObj κ ι} {h : HandleId}

theorem newHandle_handle_self : (mem.newHandle x o).handle x = some mem.objs.next := Function.update_self ..

theorem newHandle_handle_of_ne (hne : y ≠ x) : (mem.newHandle x o).handle y = mem.handle y :=
  Function.update_of_ne hne ..

theorem newHandle_obj_self : (mem.newHandle x o).objs.obj mem.objs.next = o := Function.update_self ..

theorem newHandle_obj_of_ne (hne : h ≠ mem.objs.next) : (mem.newHandle x o).objs.obj h = mem.objs.obj h :=
  Function.update_of_ne hne ..

end

@[simp] theorem invalidateItem_handle (x : ι) : (mem.invalidateItem x).handle = mem.handle := by
  unfold invalidateItem
  split <;> rfl

@[simp] theorem invalidateItem_next (x : ι) : (mem.invalidateItem x).objs.next = mem.objs.next := by
  unfold invalidateItem
  split <;> rfl

@[simp] theorem invalidateItem_panicked (x : ι) : (mem.invalidateItem x).panicked = mem.panicked := by
  unfold invalidateItem
  split <;> rfl

theorem invalidateItem_obj (x : ι) (h : HandleId) : (mem.invalidateItem x).objs.obj h =
    if mem.handle x = some h then (mem.objs.obj h).invalidate else mem.objs.obj h := by
  unfold invalidateItem
  cases hx : mem.handle x with
  | none => simp
  | some h' =>
    by_cases he : h' = h
    · subst he
      simp [invalidate]
    · simp only [invalidate, Option.some.injEq, if_neg he]
      exact Heap.set_obj_of_ne _ (Ne.symm he)

/-- The handles of a list of items are invalidated. -/
def invalidateItems (l : List ι) : Memory κ ι := l.foldl invalidateItem mem

@[simp] theorem invalidateItems_handle : ∀ (l : List ι) (mem : Memory κ ι), (mem.invalidateItems l).handle = mem.handle
  | [], _ => rfl
  | x :: l, mem => (invalidateItems_handle l _).trans (mem.invalidateItem_handle x)

@[simp] theorem invalidateItems_next : ∀ (l : List ι) (mem : Memory κ ι),
    (mem.invalidateItems l).objs.next = mem.objs.next
  | [], _ => rfl
  | x :: l, mem => (invalidateItems_next l _).trans (mem.invalidateItem_next x)

@[simp] theorem invalidateItems_panicked : ∀ (l : List ι) (mem : Memory κ ι),
    (mem.invalidateItems l).panicked = mem.panicked
  | [], _ => rfl
  | x :: l, mem => (invalidateItems_panicked l _).trans (mem.invalidateItem_panicked x)

theorem invalidateItems_obj_of_ne {h : HandleId} : ∀ {l : List ι} {mem : Memory κ ι},
    (∀ x ∈ l, mem.handle x ≠ some h) → (mem.invalidateItems l).objs.obj h = mem.objs.obj h
  | [], _, _ => rfl
  | x :: l, mem, hne => by
    have hx : (mem.invalidateItem x).objs.obj h = mem.objs.obj h := by
      rw [invalidateItem_obj, if_neg (hne x List.mem_cons_self)]
    rw [← hx]
    refine invalidateItems_obj_of_ne (l := l) fun y hy => ?_
    rw [invalidateItem_handle]
    exact hne y (List.mem_cons_of_mem _ hy)

theorem invalidate_invalidate (o : HandleObj κ ι) : o.invalidate.invalidate = o.invalidate := by
  cases o <;> rfl

theorem invalidateItems_obj {h : HandleId} : ∀ {l : List ι} {mem : Memory κ ι} {x : ι}, x ∈ l →
    mem.handle x = some h → (mem.invalidateItems l).objs.obj h = (mem.objs.obj h).invalidate
  | [], _, _, hx, _ => by cases hx
  | y :: l, mem, x, hx, hh => by
    show ((mem.invalidateItem y).invalidateItems l).objs.obj h = _
    have hobj : (mem.invalidateItem y).objs.obj h = (mem.objs.obj h).invalidate ∨
        (mem.invalidateItem y).objs.obj h = mem.objs.obj h ∧ x ∈ l := by
      by_cases hy : mem.handle y = some h
      · exact .inl (by rw [invalidateItem_obj, if_pos hy])
      · refine .inr ⟨by rw [invalidateItem_obj, if_neg hy], ?_⟩
        rcases List.mem_cons.mp hx with rfl | hx
        · exact absurd hh hy
        · exact hx
    have hkeep : (mem.invalidateItem y).handle x = some h := by rwa [invalidateItem_handle]
    by_cases hl : ∃ z ∈ l, (mem.invalidateItem y).handle z = some h
    · obtain ⟨z, hz, hzh⟩ := hl
      rw [invalidateItems_obj hz hzh]
      rcases hobj with he | ⟨he, -⟩
      · rw [he, invalidate_invalidate]
      · rw [he]
    · rw [invalidateItems_obj_of_ne fun z hz hzh => hl ⟨z, hz, hzh⟩]
      rcases hobj with he | ⟨-, hxl⟩
      · exact he
      · exact absurd ⟨x, hxl, hkeep⟩ hl

end Memory

/-- The errors of `Remove`. -/
inductive QueueError
  | invalidQueueItemHandle
  | queueItemNotFound
  deriving DecidableEq, Repr

end InferenceScheduler.Queue
