/-
The queues of a process as bags. Any number of max-min heaps and list queues
share the items and their handles; `exec` runs one method of one of them. A bag
is what a `SafeQueue` stands for: the items in it, each with the handle that
`Add` gave it (`Bags.Step`). The one promise of the callers is that an item is
added only while it is in no queue (`Fresh`).
-/
import InferenceScheduler.Lib.Run
import InferenceScheduler.Queue.HeapIndex
import InferenceScheduler.Queue.ListQueue
import Mathlib.Algebra.BigOperators.Group.Multiset.Basic

namespace InferenceScheduler.Queue

open Function (update update_of_ne update_self)

/-- The registered queues. -/
inductive Kind
  | maxMinHeap
  | listQueue
  deriving DecidableEq, Repr

inductive QueueObj (ι : Type*)
  | heap (h : MaxMinHeap ι)
  | list (l : ListQueue ι)

def Kind.new {ι : Type*} : Kind → QueueObj ι
  | .maxMinHeap => .heap {}
  | .listQueue => .list {}

namespace QueueObj

variable {ι : Type*}

def items : QueueObj ι → List ι
  | .heap h => h.items.toList
  | .list l => l.requests.map Prod.snd

def len : QueueObj ι → Nat
  | .heap h => h.items.size
  | .list l => l.requests.length

def byteSize : QueueObj ι → BitVec 64
  | .heap h => h.byteSize
  | .list l => l.byteSize

theorem length_items (o : QueueObj ι) : o.items.length = o.len := by
  cases o <;> simp [items, len]

end QueueObj

/-- All queues with the items and handles they share. -/
structure World (κ ι : Type*) where
  mem : Memory κ ι := {}
  queue : κ → QueueObj ι

/-- Empty queues. -/
def World.new {κ ι : Type*} (kind : κ → Kind) : World κ ι := { queue := fun q => (kind q).new }

inductive Op (κ ι : Type*)
  | add (q : κ) (x : ι)
  /-- `none` is a nil handle. -/
  | remove (q : κ) (handle : Option HandleId)
  | cleanup (q : κ) (predicate : ι → Bool)
  | drain (q : κ)
  /-- A handle of another implementation comes into being. -/
  | foreignHandle (isInvalidated : Bool)

/-- The queue a method is called on. -/
def Op.queue {κ ι : Type*} : Op κ ι → Option κ
  | .add q _ | .remove q _ | .cleanup q _ | .drain q => some q
  | .foreignHandle _ => none

/-- The items a method puts in. -/
def Op.given {κ ι : Type*} : Op κ ι → List ι
  | .add _ x => [x]
  | _ => []

inductive Result (ι : Type*)
  | done
  | removed (x : ι)
  | error (e : QueueError)
  | items (l : List ι)

/-- The items a method takes out. -/
def Result.taken {ι : Type*} : Result ι → List ι
  | .removed x => [x]
  | .items l => l
  | _ => []

def Result.ofExcept {ι : Type*} : Except QueueError ι → Result ι
  | .ok x => .removed x
  | .error e => .error e

section

variable {κ ι : Type*} [DecidableEq κ] [DecidableEq ι]

def World.put (w : World κ ι) (mem : Memory κ ι) (q : κ) (o : QueueObj ι) : World κ ι :=
  { w with mem := mem, queue := update w.queue q o }

variable (less : κ → ι → ι → Bool) (size : ι → BitVec 64)

/-- A method of a queue. -/
def World.exec (w : World κ ι) : Op κ ι → World κ ι × Result ι
  | .add q x =>
    match w.queue q with
    | .heap h =>
      let st := HeapState.add ⟨w.mem, h⟩ (less q) size x
      (w.put st.mem q (.heap st.heap), .done)
    | .list l =>
      let st := ListState.add ⟨w.mem, l⟩ size q x
      (w.put st.mem q (.list st.list), .done)
  | .remove q handle =>
    match w.queue q with
    | .heap h =>
      let (st, r) := HeapState.remove ⟨w.mem, h⟩ (less q) size handle
      (w.put st.mem q (.heap st.heap), .ofExcept r)
    | .list l =>
      let (st, r) := ListState.remove ⟨w.mem, l⟩ size q handle
      (w.put st.mem q (.list st.list), .ofExcept r)
  | .cleanup q predicate =>
    match w.queue q with
    | .heap h =>
      let (st, l) := HeapState.cleanup ⟨w.mem, h⟩ (less q) size predicate
      (w.put st.mem q (.heap st.heap), .items l)
    | .list l =>
      let (st, l) := ListState.cleanup ⟨w.mem, l⟩ size predicate
      (w.put st.mem q (.list st.list), .items l)
  | .drain q =>
    match w.queue q with
    | .heap h =>
      let (st, l) := HeapState.drain ⟨w.mem, h⟩
      (w.put st.mem q (.heap st.heap), .items l)
    | .list l =>
      let (st, l) := ListState.drain ⟨w.mem, l⟩
      (w.put st.mem q (.list st.list), .items l)
  | .foreignHandle b => ({ w with mem := { w.mem with objs := w.mem.objs.alloc (.other b) } }, .done)

def step (w : World κ ι) (op : Op κ ι) : Option (World κ ι) := some (w.exec less size op).1

/-- An item is added only while it is in no queue. -/
def Fresh (w : World κ ι) : Op κ ι → Prop
  | .add _ x => ∀ q, x ∉ (w.queue q).items
  | _ => True

/-! ## Bags -/

/-- The queues' items, each with its handle, and the handles made so far. -/
structure Bags (κ ι : Type*) where
  bag : κ → Multiset (Option HandleId × ι)
  issued : Finset HandleId

/-- What a method does to the bags, and what it may return. -/
inductive Bags.Step (b : Bags κ ι) : Op κ ι → Result ι → Bags κ ι → Prop
  /-- `Add` gives the item a handle that is new. -/
  | add {q : κ} {x : ι} {h : HandleId} : h ∉ b.issued → Bags.Step b (.add q x) .done
      ⟨update b.bag q ((some h, x) ::ₘ b.bag q), insert h b.issued⟩
  /-- `Remove` of a live handle returns its item. -/
  | removeLive {q : κ} {handle : Option HandleId} {x : ι} : (handle, x) ∈ b.bag q →
      Bags.Step b (.remove q handle) (.removed x)
        ⟨update b.bag q ((b.bag q).erase (handle, x)), b.issued⟩
  /-- `Remove` of any other handle is an error and changes nothing. -/
  | removeOther {q : κ} {handle : Option HandleId} {e : QueueError} : (∀ x, (handle, x) ∉ b.bag q) →
      Bags.Step b (.remove q handle) (.error e) b
  | cleanup {q : κ} {predicate : ι → Bool} {l : List ι} :
      (l : Multiset ι) = ((b.bag q).filter (predicate ·.2)).map Prod.snd →
      Bags.Step b (.cleanup q predicate) (.items l)
        ⟨update b.bag q ((b.bag q).filter (!predicate ·.2)), b.issued⟩
  | drain {q : κ} {l : List ι} : (l : Multiset ι) = (b.bag q).map Prod.snd →
      Bags.Step b (.drain q) (.items l) ⟨update b.bag q 0, b.issued⟩
  | foreignHandle {h : HandleId} {isInvalidated : Bool} : h ∉ b.issued →
      Bags.Step b (.foreignHandle isInvalidated) .done ⟨b.bag, insert h b.issued⟩

theorem Bags.Step.conserves {b b' : Bags κ ι} {op : Op κ ι} {r : Result ι} (h : Bags.Step b op r b') {q : κ}
    (hq : op.queue = some q) :
    (b'.bag q).map Prod.snd + (r.taken : Multiset ι) = (b.bag q).map Prod.snd + (op.given : Multiset ι) := by
  cases h <;> cases hq
  case add =>
    simp only [update_self, Multiset.map_cons, Result.taken, Op.given, Multiset.coe_nil, add_zero]
    rw [add_comm]
    rfl
  case removeLive x hm =>
    simp only [update_self, Result.taken, Op.given, Multiset.coe_nil, add_zero]
    nth_rw 2 [← Multiset.cons_erase hm]
    rw [Multiset.map_cons, add_comm]
    rfl
  case removeOther => rfl
  case cleanup predicate l hl =>
    simp only [update_self, Result.taken, Op.given, Multiset.coe_nil, add_zero, hl]
    rw [← Multiset.map_add, add_comm]
    congr 1
    simpa using Multiset.filter_add_not (fun e => predicate e.2 = true) (b.bag q)
  case drain l hl =>
    simp only [update_self, Result.taken, Op.given, Multiset.coe_nil, add_zero, hl, Multiset.map_zero, zero_add]

end

section

variable {κ ι : Type*}

/-- The contents of a queue. -/
def QueueObj.bag (mem : Memory κ ι) : QueueObj ι → Multiset (Option HandleId × ι)
  | .heap h => Multiset.ofList (h.items.toList.map fun x => (mem.handle x, x))
  | .list l => Multiset.ofList (l.requests.map fun e => (some e.1, e.2))

/-- The bags of the queues. -/
def World.bags (w : World κ ι) : Bags κ ι :=
  ⟨fun q => (w.queue q).bag w.mem, Finset.range w.mem.objs.next⟩

/-! ## The representation of a bag by a queue -/

/-- The handles of a list queue are those of its elements. -/
structure Linked (q : κ) (mem : Memory κ ι) (l : ListQueue ι) : Prop where
  nodup : (l.requests.map Prod.snd).Nodup
  handle : ∀ e ∈ l.requests, mem.handle e.2 = some e.1
  obj : ∀ e ∈ l.requests, mem.objs.obj e.1 = .listItemHandle e.2 q false
  allocated : ∀ e ∈ l.requests, e.1 < mem.objs.next
  live : ∀ h x, mem.objs.obj h = .listItemHandle x q false → (h, x) ∈ l.requests
  sound : mem.panicked = false

/-- The queue `q` and the memory agree. -/
structure Rep (size : ι → BitVec 64) (q : κ) (mem : Memory κ ι) (o : QueueObj ι) : Prop where
  heap : ∀ h, o = .heap h → HeapState.Indexed ⟨mem, h⟩
  list : ∀ l, o = .list l → Linked q mem l
  byteSize : o.byteSize = (o.items.map size).sum

variable {size : ι → BitVec 64} {q q' : κ} {mem mem' : Memory κ ι} {o o' : QueueObj ι} {x y : ι}

theorem Rep.handle (h : Rep size q mem o) (hx : x ∈ o.items) : ∃ hd < mem.objs.next, mem.handle x = some hd := by
  cases o with
  | heap o =>
    have hi := h.heap o rfl
    obtain ⟨hd, hm, hxh, -⟩ := hi.handle (Array.mem_toList_iff.mp hx)
    exact ⟨hd, hi.allocated hd hm, hxh⟩
  | list l =>
    have hl := h.list l rfl
    obtain ⟨e, he, rfl⟩ := List.mem_map.mp hx
    exact ⟨e.1, hl.allocated e he, hl.handle e he⟩

/-- What another queue's method leaves alone. -/
structure Spared (q : κ) (o : QueueObj ι) (mem mem' : Memory κ ι) : Prop where
  handle : ∀ x ∈ o.items, mem'.handle x = mem.handle x
  objs : ∀ x ∈ o.items, ∀ h, mem.handle x = some h → mem'.objs.obj h = mem.objs.obj h
  live : ∀ h x, mem'.objs.obj h = .listItemHandle x q false → mem.objs.obj h = .listItemHandle x q false
  next : mem.objs.next ≤ mem'.objs.next
  sound : mem'.panicked = false

theorem Rep.spared (h : Rep size q mem o) (hs : Spared q o mem mem') : Rep size q mem' o := by
  refine ⟨?_, ?_, h.byteSize⟩
  · rintro o rfl
    have hi := h.heap o rfl
    refine ⟨hi.nodup, fun i x hx => ?_, fun hd hh => ?_, fun hd hh => ?_, hs.sound⟩
    · obtain ⟨hd, hh, hxh, ho⟩ := hi.index i x hx
      have hx' : x ∈ (QueueObj.heap o).items := Array.mem_toList_iff.mpr (Array.mem_of_getElem? hx)
      exact ⟨hd, hh, (hs.handle x hx').trans hxh, (hs.objs x hx' hd hxh).trans ho⟩
    · obtain ⟨x, hx, hxh⟩ := hi.held hd hh
      exact ⟨x, hx, (hs.handle x (Array.mem_toList_iff.mpr hx)).trans hxh⟩
    · exact Nat.lt_of_lt_of_le (hi.allocated hd hh) hs.next
  · rintro l rfl
    have hl := h.list l rfl
    have hmem : ∀ e ∈ l.requests, e.2 ∈ (QueueObj.list l).items := fun e he => List.mem_map_of_mem he
    exact ⟨hl.nodup, fun e he => (hs.handle e.2 (hmem e he)).trans (hl.handle e he),
      fun e he => (hs.objs e.2 (hmem e he) e.1 (hl.handle e he)).trans (hl.obj e he),
      fun e he => Nat.lt_of_lt_of_le (hl.allocated e he) hs.next, fun h x hx => hl.live h x (hs.live h x hx), hs.sound⟩

theorem Spared.bag (hs : Spared q o mem mem') : o.bag mem' = o.bag mem := by
  cases o with
  | heap h =>
    refine congrArg Multiset.ofList (List.map_congr_left fun x hx => ?_)
    rw [hs.handle x hx]
  | list l => rfl

/-! ## The queues together -/

/-- Every queue agrees with the memory, and no queued items share a handle. -/
structure Inv (size : ι → BitVec 64) (w : World κ ι) : Prop where
  rep : ∀ q, Rep size q w.mem (w.queue q)
  apart : ∀ q q' x y, x ∈ (w.queue q).items → y ∈ (w.queue q').items → w.mem.handle x = w.mem.handle y → q = q'

variable {w : World κ ι}

theorem Inv.new (kind : κ → Kind) : Inv size (World.new kind : World κ ι) := by
  have hitems : ∀ q, ((World.new kind : World κ ι).queue q).items = [] := fun q => by
    show ((kind q).new : QueueObj ι).items = []
    cases kind q <;> rfl
  refine ⟨fun q => ⟨fun h he => ?_, fun l he => ?_, ?_⟩, fun q q' x y hx => ?_⟩
  · change (kind q).new = _ at he
    cases hk : kind q with
    | maxMinHeap =>
      rw [hk] at he
      cases he
      exact ⟨List.nodup_nil, by simp, by simp, by simp, rfl⟩
    | listQueue =>
      rw [hk] at he
      cases he
  · change (kind q).new = _ at he
    cases hk : kind q with
    | maxMinHeap =>
      rw [hk] at he
      cases he
    | listQueue =>
      rw [hk] at he
      cases he
      exact ⟨List.nodup_nil, by simp, by simp, by simp, nofun, rfl⟩
  · rw [hitems]
    show ((kind q).new : QueueObj ι).byteSize = _
    cases kind q <;> rfl
  · rw [hitems] at hx
    cases hx

variable [DecidableEq κ]

theorem Inv.put (hw : Inv size w) (hrep : Rep size q mem' o') (hspared : ∀ q' ≠ q, Spared q' (w.queue q') w.mem mem')
    (hitems : ∀ x ∈ o'.items, x ∈ (w.queue q).items ∧ mem'.handle x = w.mem.handle x ∨
      mem'.handle x = some w.mem.objs.next) : Inv size (w.put mem' q o') := by
  have hself : (w.put mem' q o').queue q = o' := update_self ..
  have hother : ∀ q' ≠ q, (w.put mem' q o').queue q' = w.queue q' := fun q' hne => update_of_ne hne ..
  -- an item of the queue does not share its handle with one of another
  have hcross : ∀ q' ≠ q, ∀ x ∈ o'.items, ∀ y ∈ (w.queue q').items, mem'.handle x ≠ mem'.handle y := by
    intro q' hne x hx y hy he
    rw [(hspared q' hne).handle y hy] at he
    rcases hitems x hx with ⟨hx', hh⟩ | hh
    · exact hne (hw.apart q q' x y hx' hy (hh ▸ he)).symm
    · obtain ⟨h, hlt, hyh⟩ := (hw.rep q').handle hy
      rw [hh, hyh, Option.some.injEq] at he
      exact Nat.ne_of_lt hlt he.symm
  refine ⟨fun q' => ?_, fun q₁ q₂ x y hx hy he => ?_⟩
  · by_cases hq : q' = q
    · subst hq
      rw [hself]
      exact hrep
    · rw [hother q' hq]
      exact (hw.rep q').spared (hspared q' hq)
  · change mem'.handle x = mem'.handle y at he
    by_cases h₁ : q₁ = q
    · by_cases h₂ : q₂ = q
      · rw [h₁, h₂]
      · subst h₁
        rw [hself] at hx
        rw [hother q₂ h₂] at hy
        exact absurd he (hcross q₂ h₂ x hx y hy)
    · rw [hother q₁ h₁] at hx
      by_cases h₂ : q₂ = q
      · subst h₂
        rw [hself] at hy
        exact absurd he.symm (hcross q₁ h₁ y hy x hx)
      · rw [hother q₂ h₂] at hy
        rw [(hspared q₁ h₁).handle x hx, (hspared q₂ h₂).handle y hy] at he
        exact hw.apart q₁ q₂ x y hx hy he

theorem bag_put (hspared : ∀ q' ≠ q, Spared q' (w.queue q') w.mem mem') :
    (w.put mem' q o').bags.bag = update w.bags.bag q (o'.bag mem') := by
  funext q'
  by_cases hq : q' = q
  · subst hq
    rw [update_self]
    show (update w.queue q' o' q').bag mem' = _
    rw [update_self]
  · rw [update_of_ne hq]
    show (update w.queue q o' q').bag mem' = _
    rw [update_of_ne hq]
    exact (hspared q' hq).bag

/-- A method of `q` touches only the handles of its own items, and new ones. -/
structure Confined (w : World κ ι) (q : κ) (mem' : Memory κ ι) : Prop where
  handle : ∀ q' ≠ q, ∀ x ∈ (w.queue q').items, mem'.handle x = w.mem.handle x
  objs : ∀ h, mem'.objs.obj h = w.mem.objs.obj h ∨
    ((∃ x ∈ (w.queue q).items, w.mem.handle x = some h) ∨ w.mem.objs.next ≤ h) ∧
      ∀ x q' b, mem'.objs.obj h = .listItemHandle x q' b → q' = q
  next : w.mem.objs.next ≤ mem'.objs.next
  sound : mem'.panicked = false

omit [DecidableEq κ] in
theorem Confined.spared (hw : Inv size w) (hc : Confined w q mem') :
    ∀ q' ≠ q, Spared q' (w.queue q') w.mem mem' := by
  intro q' hne
  refine ⟨hc.handle q' hne, fun x hx h hxh => ?_, fun h x hl => ?_, hc.next, hc.sound⟩
  · rcases hc.objs h with he | ⟨⟨y, hy, hyh⟩ | hle, -⟩
    · exact he
    · exact absurd (hw.apart q q' y x hy hx (hyh.trans hxh.symm)).symm hne
    · obtain ⟨h', hlt, hxh'⟩ := (hw.rep q').handle hx
      rw [hxh, Option.some.injEq] at hxh'
      exact absurd (hxh' ▸ hlt) (Nat.not_lt.mpr hle)
  · rcases hc.objs h with he | ⟨-, hmine⟩
    · exact he ▸ hl
    · exact absurd (hmine x q' false hl) hne

end

end InferenceScheduler.Queue
