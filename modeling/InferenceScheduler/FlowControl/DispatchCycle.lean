/-
One cycle of the shard processor (`processor.go`: `dispatchCycle`, `selectItem`,
`dispatchItem`): it goes through the priority levels from the highest on, stops
at the first whose usage limit the saturation has reached, and dispatches the
first item that a band's fairness policy selects.

`Contents` gives what the shard looks like at each of its reads. The cycle
writes once, in its last step.
-/
import InferenceScheduler.Types
import Mathlib.Order.Lattice
import Mathlib.Order.Nat
import Mathlib.Data.List.Basic

namespace InferenceScheduler.DispatchCycle

/-- An item of a queue, with the key of its request. -/
structure Item where
  id : Nat
  key : FlowKey
  deriving DecidableEq, Repr

/-- The queues of a band, each with the item `PeekHead` returns first. -/
abbrev Queues := String → Option (List Item)

/-- A priority band. Its fairness policy is any function of the band. -/
structure Band where
  queues : Queues
  fairness : Queues → Except GoError (Option String)

/-- What a cycle reads of a shard. -/
structure Shard where
  bands : Int → Option Band
  orderedPriorityLevels : List Int
  /-- the levels are sorted, the highest first -/
  descending : orderedPriorityLevels.Pairwise (· > ·)
  /-- an item is in the queue of its flow -/
  keyed : ∀ {priority band id items}, bands priority = some band → band.queues id = some items →
    ∀ x ∈ items, x.key = ⟨id, priority⟩

/-- The reads of a cycle in one band. -/
inductive Moment
  | accessor
  | select
  | lookup
  | remove
  deriving DecidableEq

/-- The shard at each read of a cycle: by band and moment. -/
abbrev Contents := Int → Moment → Shard

/-! ## The cycle -/

namespace Shard

def priorityBandAccessor (s : Shard) (priority : Int) : Except GoError Band :=
  match s.bands priority with
  | some band => .ok band
  | none => .error (.errorf "failed to get priority band accessor for priority %d: %w" [.sentinel errPriorityBandNotFound])

def fairnessPolicy (s : Shard) (priority : Int) : Except GoError (Queues → Except GoError (Option String)) :=
  match s.bands priority with
  | some band => .ok band.fairness
  | none => .error (.errorf "failed to get fairness policy for priority %d: %w" [.sentinel errPriorityBandNotFound])

def managedQueue (s : Shard) (key : FlowKey) : Except GoError (List Item) :=
  match s.bands key.priority with
  | none => .error (.errorf "failed to get managed queue for flow %q: %w" [.sentinel errPriorityBandNotFound])
  | some band =>
    match band.queues key.id with
    | none => .error (.errorf "failed to get managed queue for flow %q: %w" [.sentinel errFlowInstanceNotFound])
    | some items => .ok items

/-- The queues of a band that is there. -/
def queues (s : Shard) (priority : Int) : Queues :=
  match s.bands priority with
  | some band => band.queues
  | none => fun _ => none

end Shard

def selectItem (s : Shard) (priority : Int) : Except GoError (Option Item) :=
  match s.fairnessPolicy priority with
  | .error err => .error (.errorf "could not get FairnessPolicy: %w" [err])
  | .ok fairnessP =>
    match fairnessP (s.queues priority) with
    | .error err => .error (.errorf "FairnessPolicy %q failed to select queue: %w" [err])
    | .ok none => .ok none
    | .ok (some id) =>
      match s.queues priority id with
      | none => .ok none
      | some items => .ok items.head?

/-- What it removes. An item that is no longer in its queue is no error. -/
def dispatchItem (content : Moment → Shard) (item : Item) : Except GoError (List Item) :=
  match (content .lookup).managedQueue item.key with
  | .error err => .error (.errorf "failed to get ManagedQueue for flow %s: %w" [err])
  | .ok _ =>
    match (content .remove).managedQueue item.key with
    | .error _ => .ok []
    | .ok items => .ok (if item ∈ items then [item] else [])

section Cycle

/-- A `float64`: a number, or NaN, for which every comparison is false. -/
inductive Float64 (α : Type*)
  | nan
  | number (x : α)

variable {α : Type*} [LinearOrder α]

/-- `x >= y`. -/
def Float64.ge : Float64 α → Float64 α → Bool
  | .number x, .number y => y ≤ x
  | _, _ => false

theorem Float64.ge_number {x y : α} : (Float64.number x).ge (.number y) = false ↔ x < y := by
  simp [Float64.ge]

/-- The loop from the `i`-th level on; `none` where `ceilings[i]` is out of range. -/
def cycleFrom (content : Contents) (saturation : Float64 α) (ceilings : List (Float64 α)) : Nat → List Int → Option (Bool × List Item)
  | _, [] => some (false, [])
  | i, priority :: rest =>
    match ceilings[i]? with
    | none => none
    | some usageLimit =>
      if saturation.ge usageLimit then some (false, [])
      else
        match (content priority .accessor).priorityBandAccessor priority with
        | .error _ => cycleFrom content saturation ceilings (i + 1) rest
        | .ok _ =>
          match selectItem (content priority .select) priority with
          | .error _ => cycleFrom content saturation ceilings (i + 1) rest
          | .ok none => cycleFrom content saturation ceilings (i + 1) rest
          | .ok (some item) =>
            match dispatchItem (content priority) item with
            | .error _ => cycleFrom content saturation ceilings (i + 1) rest
            | .ok removed => some (true, removed)

def dispatchCycle (s : Shard) (content : Contents) (saturation : Float64 α)
    (computeLimit : Float64 α → List Int → List (Float64 α)) : Option (Bool × List Item) :=
  cycleFrom content saturation (computeLimit saturation s.orderedPriorityLevels) 0 s.orderedPriorityLevels

end Cycle

/-! ## What a band has to offer -/

/-- The band is there, its fairness policy picks one of its queues, and the item is at the
head of that queue. -/
def Shard.Selectable (s : Shard) (priority : Int) (item : Item) : Prop :=
  ∃ band id rest, s.bands priority = some band ∧ band.fairness band.queues = .ok (some id) ∧
    band.queues id = some (item :: rest)

/-- The band's item, as the band is when the cycle comes to it. -/
def Selects (content : Contents) (priority : Int) (item : Item) : Prop :=
  ((content priority .accessor).bands priority).isSome ∧ (content priority .select).Selectable priority item

/-- The item is in the queue of its flow. -/
def Shard.Holds (s : Shard) (item : Item) : Prop :=
  ∃ band items, s.bands item.key.priority = some band ∧ band.queues item.key.id = some items ∧ item ∈ items

/-- The band's item is still there when it is to be dispatched. -/
def Offers (content : Contents) (priority : Int) (item : Item) : Prop :=
  Selects content priority item ∧ (content priority .lookup).Holds item

/-- Nobody else touches the shard while the cycle deals with the band. -/
def Undisturbed (content : Contents) (priority : Int) : Prop :=
  ∀ moment, content priority moment = content priority .accessor

variable {item : Item} {priority : Int} {s : Shard}

theorem selectItem_some : selectItem s priority = .ok (some item) ↔ s.Selectable priority item := by
  unfold selectItem Shard.Selectable Shard.fairnessPolicy Shard.queues
  cases s.bands priority with
  | none => simp
  | some band =>
    simp only [Option.some.injEq, exists_and_left, exists_eq_left']
    cases hpick : band.fairness band.queues with
    | error err => simp
    | ok picked =>
      cases picked with
      | none => simp
      | some id =>
        simp only [Except.ok.injEq, Option.some.injEq, exists_eq_left']
        cases band.queues id with
        | none => simp
        | some items => cases items <;> simp

theorem managedQueue_ok {key : FlowKey} {items : List Item} :
    s.managedQueue key = .ok items ↔ ∃ band, s.bands key.priority = some band ∧ band.queues key.id = some items := by
  unfold Shard.managedQueue
  cases s.bands key.priority with
  | none => simp
  | some band => cases hq : band.queues key.id <;> simp [hq]

theorem Shard.holds_iff : s.Holds item ↔ ∃ items, s.managedQueue item.key = .ok items ∧ item ∈ items := by
  simp only [Shard.Holds, managedQueue_ok]
  grind

theorem priorityBandAccessor_ok :
    (∃ band, s.priorityBandAccessor priority = .ok band) ↔ (s.bands priority).isSome := by
  unfold Shard.priorityBandAccessor
  cases s.bands priority <;> simp

theorem Shard.Selectable.holds (h : s.Selectable priority item) : item.key.priority = priority ∧ s.Holds item := by
  obtain ⟨band, id, rest, hband, -, hitems⟩ := h
  have hkey := s.keyed hband hitems item List.mem_cons_self
  refine ⟨by rw [hkey], band, item :: rest, ?_, ?_, List.mem_cons_self⟩
  · rw [hkey]
    exact hband
  · rw [hkey]
    exact hitems

theorem Selects.priority_eq {content : Contents} (h : Selects content priority item) : item.key.priority = priority :=
  h.2.holds.1

theorem Undisturbed.offers {content : Contents} (hu : Undisturbed content priority)
    (h : Selects content priority item) : Offers content priority item := by
  refine ⟨h, ?_⟩
  rw [hu .lookup, ← hu .select]
  exact h.2.holds.2

theorem not_holds_of_dispatchItem_error {content : Moment → Shard} {err : GoError}
    (h : dispatchItem content item = .error err) : ¬(content .lookup).Holds item := by
  intro hholds
  obtain ⟨items, hqueue, -⟩ := Shard.holds_iff.mp hholds
  unfold dispatchItem at h
  rw [hqueue] at h
  dsimp only at h
  split at h
  · cases h
  · cases h

theorem dispatchItem_ok {content : Moment → Shard} {removed : List Item}
    (h : dispatchItem content item = .ok removed) :
    removed = [item] ∧ (content .remove).Holds item ∨ removed = [] ∧ ¬(content .remove).Holds item := by
  unfold dispatchItem at h
  split at h
  · cases h
  · split at h
    · rename_i hgone
      refine .inr ⟨(Except.ok.inj h).symm, fun hholds => ?_⟩
      obtain ⟨items, hqueue, -⟩ := Shard.holds_iff.mp hholds
      rw [hgone] at hqueue
      cases hqueue
    · rename_i items hqueue
      have hremoved := Except.ok.inj h
      by_cases hmem : item ∈ items
      · rw [if_pos hmem] at hremoved
        exact .inl ⟨hremoved.symm, Shard.holds_iff.mpr ⟨items, hqueue, hmem⟩⟩
      · rw [if_neg hmem] at hremoved
        refine .inr ⟨hremoved.symm, fun hholds => ?_⟩
        obtain ⟨items', hqueue', hmem'⟩ := Shard.holds_iff.mp hholds
        rw [hqueue] at hqueue'
        cases hqueue'
        exact hmem hmem'

/-! ## The loop -/

section Loop

variable {α : Type*}

theorem zip_descending {priorities : List Int} (h : priorities.Pairwise (· > ·)) {ceilings : List α}
    (hlen : ceilings.length = priorities.length) :
    (priorities.zip ceilings).Pairwise fun b b' => b.1 > b'.1 := by
  rw [← List.pairwise_map (f := Prod.fst) (R := (· > ·)), List.map_fst_zip (by omega)]
  exact h

variable [LinearOrder α] {content : Contents} {saturation : Float64 α} {ceilings : List (Float64 α)}

/-- The bands the loop skips: each is under its limit and offers nothing. -/
def Skipped (content : Contents) (saturation : Float64 α) (band : Int × Float64 α) : Prop :=
  saturation.ge band.2 = false ∧ ∀ item, ¬Offers content band.1 item

/-- After some bands that it skips, with no band left, at a saturated one, or with
an item it selects. -/
inductive Ends (content : Contents) (saturation : Float64 α) : List (Int × Float64 α) → Bool × List Item → Prop
  | done : Ends content saturation [] (false, [])
  | saturated {band bands} : saturation.ge band.2 = true → Ends content saturation (band :: bands) (false, [])
  | dispatched {band bands item removed} : saturation.ge band.2 = false → Selects content band.1 item →
      dispatchItem (content band.1) item = .ok removed → Ends content saturation (band :: bands) (true, removed)
  | skip {band bands result} : Skipped content saturation band → Ends content saturation bands result →
      Ends content saturation (band :: bands) result

theorem ends_cycleFrom : ∀ (priorities : List Int) (i : Nat), ceilings.length = i + priorities.length →
    ∃ result, cycleFrom content saturation ceilings i priorities = some result ∧
      Ends content saturation (priorities.zip (ceilings.drop i)) result
  | [], _, _ => ⟨_, rfl, .done⟩
  | priority :: rest, i, hlen => by
    have hi : i < ceilings.length := by
      rw [hlen, List.length_cons]
      omega
    have hdrop : ceilings.drop i = ceilings[i] :: ceilings.drop (i + 1) := List.drop_eq_getElem_cons hi
    obtain ⟨result, hrest, hends⟩ := ends_cycleFrom rest (i + 1) (by rw [hlen, List.length_cons]; omega)
    rw [hdrop, List.zip_cons_cons]
    simp only [cycleFrom, List.getElem?_eq_getElem hi, hrest]
    cases hsat : saturation.ge ceilings[i] with
    | true => exact ⟨(false, []), rfl, .saturated hsat⟩
    | false =>
      have hskip : (∀ item, ¬Offers content priority item) →
          Ends content saturation ((priority, ceilings[i]) :: rest.zip (ceilings.drop (i + 1))) result :=
        fun hnone => .skip ⟨hsat, hnone⟩ hends
      simp only [Bool.false_eq_true, if_false]
      cases haccessor : (content priority .accessor).priorityBandAccessor priority with
      | error err =>
        refine ⟨result, rfl, hskip ?_⟩
        rintro item ⟨⟨hsome, -⟩, -⟩
        obtain ⟨band, hband⟩ := priorityBandAccessor_ok.mpr hsome
        rw [haccessor] at hband
        cases hband
      | ok band =>
        have hselects : ∀ {item}, Selects content priority item →
            selectItem (content priority .select) priority = .ok (some item) := fun h => selectItem_some.mpr h.2
        cases hselect : selectItem (content priority .select) priority with
        | error err =>
          refine ⟨result, rfl, hskip fun item hoffers => ?_⟩
          rw [hselects hoffers.1] at hselect
          cases hselect
        | ok selected =>
          cases selected with
          | none =>
            refine ⟨result, rfl, hskip fun item hoffers => ?_⟩
            rw [hselects hoffers.1] at hselect
            cases hselect
          | some item =>
            cases hdispatch : dispatchItem (content priority) item with
            | error err =>
              refine ⟨result, by simp only [hdispatch], hskip fun item' hoffers => ?_⟩
              rw [hselects hoffers.1] at hselect
              cases hselect
              exact not_holds_of_dispatchItem_error hdispatch hoffers.2
            | ok removed =>
              exact ⟨(true, removed), by simp only [hdispatch], .dispatched hsat
                ⟨priorityBandAccessor_ok.mp ⟨band, haccessor⟩, selectItem_some.mp hselect⟩ hdispatch⟩

variable {bands : List (Int × Float64 α)} {result : Bool × List Item}

theorem Ends.removed_length (h : Ends content saturation bands result) : result.2.length ≤ 1 := by
  induction h with
  | done | saturated => exact Nat.zero_le 1
  | dispatched _ _ hdispatch =>
    rcases dispatchItem_ok hdispatch with ⟨hr, -⟩ | ⟨hr, -⟩ <;> simp [hr]
  | skip _ _ ih => exact ih

theorem Ends.dispatches (h : Ends content saturation bands result) (htrue : result.1 = true)
    (hsorted : bands.Pairwise fun b b' => b.1 > b'.1) :
    ∃ item, (result.2 = [item] ∧ (content item.key.priority .remove).Holds item ∨
        result.2 = [] ∧ ¬(content item.key.priority .remove).Holds item) ∧
      Selects content item.key.priority item ∧ item.key.priority ∈ bands.map Prod.fst ∧
      (∀ b ∈ bands, item.key.priority ≤ b.1 → saturation.ge b.2 = false) ∧
      ∀ b ∈ bands, item.key.priority < b.1 → ∀ x, ¬Offers content b.1 x := by
  induction h with
  | done | saturated => cases htrue
  | @dispatched band bands item removed hlt hselects hdispatch =>
    have hpriority := hselects.priority_eq
    rw [List.pairwise_cons] at hsorted
    refine ⟨item, ?_, ?_, ?_, ?_, ?_⟩
    · rw [hpriority]
      exact dispatchItem_ok hdispatch
    · rwa [hpriority]
    · rw [hpriority]
      exact List.mem_cons_self
    · intro b hb hle
      rcases List.mem_cons.mp hb with rfl | hb
      · exact hlt
      · have := hsorted.1 b hb
        omega
    · intro b hb hlt'
      rcases List.mem_cons.mp hb with rfl | hb
      · omega
      · have := hsorted.1 b hb
        omega
  | @skip band bands result hskip _ ih =>
    rw [List.pairwise_cons] at hsorted
    obtain ⟨item, hremoved, hselects, hmem, hlimits, hnone⟩ := ih htrue hsorted.2
    refine ⟨item, hremoved, hselects, List.mem_cons_of_mem _ hmem, ?_, ?_⟩
    · intro b hb hle
      rcases List.mem_cons.mp hb with rfl | hb
      · exact hskip.1
      · exact hlimits b hb hle
    · intro b hb hlt
      rcases List.mem_cons.mp hb with rfl | hb
      · exact hskip.2
      · exact hnone b hb hlt

theorem Ends.nothing (h : Ends content saturation bands result) (hfalse : result.1 = false)
    (hsorted : bands.Pairwise fun b b' => b.1 > b'.1) :
    result.2 = [] ∧ ∀ b ∈ bands, (∀ b' ∈ bands, b.1 ≤ b'.1 → saturation.ge b'.2 = false) → ∀ x, ¬Offers content b.1 x := by
  induction h with
  | done => exact ⟨rfl, nofun⟩
  | @saturated band bands hle =>
    refine ⟨rfl, fun b hb hlimits => ?_⟩
    -- the first band is saturated, so none is above it
    have hge : b.1 ≤ band.1 := by
      rcases List.mem_cons.mp hb with rfl | hb
      · exact Int.le_refl _
      · exact Int.le_of_lt ((List.pairwise_cons.mp hsorted).1 b hb)
    exact absurd (hlimits band List.mem_cons_self hge) (by simp [hle])
  | dispatched => cases hfalse
  | @skip band bands result hskip _ ih =>
    rw [List.pairwise_cons] at hsorted
    obtain ⟨hremoved, hnone⟩ := ih hfalse hsorted.2
    refine ⟨hremoved, fun b hb hlimits => ?_⟩
    rcases List.mem_cons.mp hb with rfl | hb
    · exact hskip.2
    · exact hnone b hb fun b' hb' hle => hlimits b' (List.mem_cons_of_mem _ hb') hle

/-- **Strict priority dispatch.** For every shard, at every read of the cycle,
every saturation and every policies, with one ceiling per level:

a cycle removes at most one item; when it dispatches one, the saturation is not at
or above (`>=`) the ceilings of the item's band and of every higher one, so those that
are numbers are above a saturation that is a number, and no higher
band has an item to select that has not been removed meanwhile; the item is
removed unless it has been removed meanwhile itself; when it dispatches none,
no band above the first saturated one has an item to select that has not been
removed meanwhile. In a band that nobody else touches, nothing is removed
meanwhile. -/
theorem strict_priority_dispatch (s : Shard) (content : Contents) (saturation : Float64 α)
    (computeLimit : Float64 α → List Int → List (Float64 α))
    (hlen : (computeLimit saturation s.orderedPriorityLevels).length = s.orderedPriorityLevels.length) :
    ∃ dispatched removed, dispatchCycle s content saturation computeLimit = some (dispatched, removed) ∧
      removed.length ≤ 1 ∧
      (dispatched = true → ∃ item,
        (removed = [item] ∧ (content item.key.priority .remove).Holds item ∨
          removed = [] ∧ ¬(content item.key.priority .remove).Holds item) ∧
        Selects content item.key.priority item ∧ item.key.priority ∈ s.orderedPriorityLevels ∧
        (∀ b ∈ s.orderedPriorityLevels.zip (computeLimit saturation s.orderedPriorityLevels),
          item.key.priority ≤ b.1 → saturation.ge b.2 = false ∧
            ∀ x y, saturation = .number x → b.2 = .number y → x < y) ∧
        ∀ priority ∈ s.orderedPriorityLevels, item.key.priority < priority → ∀ x, ¬Offers content priority x) ∧
      (dispatched = false → removed = [] ∧ ∀ priority ∈ s.orderedPriorityLevels,
        (∀ b ∈ s.orderedPriorityLevels.zip (computeLimit saturation s.orderedPriorityLevels),
          priority ≤ b.1 → saturation.ge b.2 = false) → ∀ x, ¬Offers content priority x) ∧
      (∀ priority, Undisturbed content priority → ∀ x, Selects content priority x →
        Offers content priority x ∧ (content priority .remove).Holds x) := by
  have hloop : ∃ result, dispatchCycle s content saturation computeLimit = some result ∧
      Ends content saturation
        (s.orderedPriorityLevels.zip ((computeLimit saturation s.orderedPriorityLevels).drop 0)) result :=
    ends_cycleFrom s.orderedPriorityLevels 0 (by omega)
  obtain ⟨⟨dispatched, removed⟩, hcycle, hends⟩ := hloop
  rw [List.drop_zero] at hends
  have hsorted := zip_descending s.descending hlen
  have hlevels : (s.orderedPriorityLevels.zip (computeLimit saturation s.orderedPriorityLevels)).map Prod.fst =
      s.orderedPriorityLevels := List.map_fst_zip (by omega)
  have hband : ∀ priority ∈ s.orderedPriorityLevels,
      ∃ b ∈ s.orderedPriorityLevels.zip (computeLimit saturation s.orderedPriorityLevels), b.1 = priority := by
    intro priority hp
    rw [← hlevels] at hp
    exact List.mem_map.mp hp
  refine ⟨dispatched, removed, hcycle, hends.removed_length, ?_, ?_, ?_⟩
  · intro htrue
    obtain ⟨item, hremoved, hselects, hmem, hlimits, hnone⟩ := hends.dispatches htrue hsorted
    rw [hlevels] at hmem
    refine ⟨item, hremoved, hselects, hmem, fun b hb hle => ⟨hlimits b hb hle, fun x y hx hy => ?_⟩, ?_⟩
    · have hunder := hlimits b hb hle
      rw [hx, hy] at hunder
      exact Float64.ge_number.mp hunder
    · intro priority hp hlt
      obtain ⟨b, hb, rfl⟩ := hband priority hp
      exact hnone b hb hlt
  · intro hfalse
    obtain ⟨hremoved, hnone⟩ := hends.nothing hfalse hsorted
    refine ⟨hremoved, ?_⟩
    intro priority hp hlimits
    obtain ⟨b, hb, rfl⟩ := hband priority hp
    exact hnone b hb hlimits
  · intro priority hu x hselects
    have hoffers := hu.offers hselects
    refine ⟨hoffers, ?_⟩
    rw [hu .remove, ← hu .lookup]
    exact hoffers.2

end Loop

/-! ## A shard with two bands -/

/-- A band of one queue, which its policy picks. -/
def oneQueue (priority : Int) (n : Nat) : Band where
  queues id := if id = "f" then some [⟨n, ⟨"f", priority⟩⟩] else none
  fairness _ := .ok (some "f")

/-- Bands 5 and 3, each with an item. -/
def twoBands : Shard where
  bands priority := if priority = 5 then some (oneQueue 5 0) else if priority = 3 then some (oneQueue 3 1) else none
  orderedPriorityLevels := [5, 3]
  descending := by decide
  keyed := by
    intro priority band id items hband hitems x hx
    have hp : priority = 5 ∧ band = oneQueue 5 0 ∨ priority = 3 ∧ band = oneQueue 3 1 := by
      split at hband
      · rename_i h
        exact .inl ⟨h, (Option.some.inj hband).symm⟩
      · split at hband
        · rename_i h
          exact .inr ⟨h, (Option.some.inj hband).symm⟩
        · cases hband
    have hq : ∀ {priority n}, (oneQueue priority n).queues id = some items → x.key = ⟨id, priority⟩ := by
      intro priority n hitems
      simp only [oneQueue] at hitems
      split at hitems
      · rename_i hid
        cases hitems
        rw [List.mem_singleton.mp hx, hid]
      · cases hitems
    rcases hp with ⟨rfl, rfl⟩ | ⟨rfl, rfl⟩
    · exact hq hitems
    · exact hq hitems

def ceilings : List (Float64 Nat) := [.number 9, .number 4]

/-- With ceilings 9 and 4 and a saturation of 6 the higher band's item goes. -/
theorem strict_priority_dispatch_two_bands :
    ∃ dispatched removed, dispatchCycle twoBands (fun _ _ => twoBands) (.number 6) (fun _ _ => ceilings) =
      some (dispatched, removed) ∧ dispatched = true ∧ removed.length ≤ 1 ∧
        ∃ item, Selects (fun _ _ => twoBands) item.key.priority item := by
  obtain ⟨dispatched, removed, hcycle, hlength, hdispatches, -⟩ :=
    strict_priority_dispatch twoBands (fun _ _ => twoBands) (.number 6) (fun _ _ => ceilings) rfl
  have htrue : dispatched = true := by
    have hrun : (dispatchCycle twoBands (fun _ _ => twoBands) (.number 6)
      (fun _ _ => ceilings)).map Prod.fst = some true := by decide +kernel
    rw [hcycle] at hrun
    exact Option.some.inj hrun
  obtain ⟨item, -, hselects, -⟩ := hdispatches htrue
  exact ⟨dispatched, removed, hcycle, htrue, hlength, item, hselects⟩

/-- A saturation of NaN, as a server that reports a cache usage of NaN gives it, stops no
band: an item goes though no ceiling is above the saturation. -/
theorem nan_dispatches : (dispatchCycle twoBands (fun _ _ => twoBands) (.nan : Float64 Nat)
    (fun _ _ => ceilings)).map Prod.fst = some true ∧
      ∀ ceiling ∈ ceilings, ¬∃ x y, (.nan : Float64 Nat) = .number x ∧ ceiling = .number y ∧ x < y := by
  refine ⟨by decide +kernel, ?_⟩
  rintro ceiling - ⟨x, y, h, -⟩
  cases h

end InferenceScheduler.DispatchCycle
