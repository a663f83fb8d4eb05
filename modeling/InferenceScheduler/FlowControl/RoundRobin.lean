/-
The round-robin fairness policy of a priority band (`roundrobin.go`): `Pick`
sorts the band's flow keys, resumes behind the flow it selected last and takes
the first queue with an item.

The flows are fixed; their queues grow and shrink between picks. While a flow
has an item, every pick selects it or brings the cursor nearer to it
(`waiting`).
-/
import InferenceScheduler.Types
import InferenceScheduler.Lib.Rotation
import Mathlib.Data.List.Sort
import Mathlib.Data.String.Basic

namespace InferenceScheduler

/-- `FlowKey.Compare`: the higher priority first, then the ID. -/
def FlowKey.compare (k other : FlowKey) : Int :=
  if k.priority > other.priority then -1
  else if k.priority < other.priority then 1
  else if k.id < other.id then -1
  else if k.id = other.id then 0
  else 1

/-- The order `slices.SortFunc` sorts by. -/
def FlowKey.precedes (k other : FlowKey) : Prop := k.compare other ≤ 0

instance : DecidableRel FlowKey.precedes := fun k other => inferInstanceAs (Decidable (k.compare other ≤ 0))

theorem FlowKey.precedes_iff (k other : FlowKey) :
    k.precedes other ↔ other.priority < k.priority ∨ (k.priority = other.priority ∧ k.id ≤ other.id) := by
  unfold FlowKey.precedes FlowKey.compare
  rcases lt_trichotomy k.priority other.priority with hp | hp | hp
  · rw [if_neg (by omega), if_pos hp]
    exact iff_of_false (by decide) (by omega)
  · rw [if_neg (by omega), if_neg (by omega)]
    simp only [hp, lt_irrefl, true_and, false_or]
    rcases lt_trichotomy k.id other.id with hid | hid | hid
    · simp [hid, hid.le]
    · simp [hid]
    · simp [hid.not_gt, hid.ne', hid.not_ge]
  · rw [if_pos hp]
    exact iff_of_true (by decide) (.inl hp)

instance : Std.Total FlowKey.precedes where
  total k other := by
    rw [FlowKey.precedes_iff, FlowKey.precedes_iff]
    rcases le_total k.id other.id with hid | hid
    · simp only [hid, and_true]
      omega
    · simp only [hid, and_true]
      omega

instance : IsTrans FlowKey FlowKey.precedes where
  trans a b c hab hbc := by
    rw [FlowKey.precedes_iff] at hab hbc ⊢
    rcases hab with hab | ⟨hab, hid⟩
    · rcases hbc with hbc | ⟨hbc, -⟩ <;> exact .inl (by omega)
    · rcases hbc with hbc | ⟨hbc, hid'⟩
      · exact .inl (by omega)
      · exact .inr ⟨by omega, hid.trans hid'⟩

instance : Std.Antisymm FlowKey.precedes where
  antisymm a b hab hba := by
    obtain ⟨ida, pa⟩ := a
    obtain ⟨idb, pb⟩ := b
    rw [FlowKey.precedes_iff] at hab hba
    dsimp only at hab hba
    rcases hab with hab | ⟨rfl, hid⟩
    · rcases hba with hba | ⟨hba, -⟩ <;> omega
    · rcases hba with hba | ⟨-, hid'⟩
      · omega
      · rw [le_antisymm hid hid']

namespace RoundRobin

open Rotation

/-- A band with a fixed set of flows, given by their IDs. -/
structure Band where
  priority : Int
  ids : List String
  nodup : ids.Nodup

/-- A flow's key in the band. -/
def Band.key (band : Band) (id : String) : FlowKey := ⟨id, band.priority⟩

/-- The band's queues and the policy's cursor (`roundRobinCursor`). -/
structure State where
  lastSelected : Option FlowKey
  len : String → Nat

/-- Where `Pick` starts: behind the last selected flow if it is still there. -/
def startIndex (lastSelected : Option FlowKey) (keys : List FlowKey) : Nat :=
  match lastSelected with
  | none => 0
  | some last => if last ∈ keys then (keys.idxOf last + 1) % keys.length else 0

def hasItem (band : Band) (s : State) (key : FlowKey) : Bool :=
  band.ids.contains key.id && decide (0 < s.len key.id)

/-- `roundRobin.Pick` on the keys as `FlowKeys` lists them, and the cursor after. -/
def pick (band : Band) (s : State) (flowKeys : List FlowKey) : Option FlowKey × Option FlowKey :=
  if flowKeys = [] then (none, none)
  else
    let keys := flowKeys.insertionSort FlowKey.precedes
    let start := startIndex s.lastSelected keys
    match rotate keys.length start (fun i => (keys[i]?).any (hasItem band s)) with
    | some currentIdx => (keys[currentIdx]?, keys[currentIdx]?)
    | none => (none, none)

/-- The order of a `pick`'s listing is the iteration order of the map of queues. -/
inductive Event (band : Band)
  | add (id : String)
  | remove (id : String)
  | pick (listed : List String) (perm : listed.Perm band.ids)

def Event.isPick {band : Band} : Event band → Bool
  | .pick .. => true
  | _ => false

def step (band : Band) (s : State) : Event band → State
  | .add id => { s with len := Function.update s.len id (s.len id + 1) }
  | .remove id => { s with len := Function.update s.len id (s.len id - 1) }
  | .pick listed _ => { s with lastSelected := (pick band s (listed.map band.key)).2 }

/-- The flow an event selects. -/
def selected (band : Band) (s : State) : Event band → Option FlowKey
  | .pick listed _ => (pick band s (listed.map band.key)).1
  | _ => none

/-- The state before the event at time `t`. -/
def stateAt {band : Band} (s₀ : State) (events : Nat → Event band) : Nat → State
  | 0 => s₀
  | t + 1 => step band (stateAt s₀ events t) (events t)

/-- The flow selected at time `t`. -/
def selectedAt {band : Band} (s₀ : State) (events : Nat → Event band) (t : Nat) : Option FlowKey :=
  selected band (stateAt s₀ events t) (events t)

/-- The number of picks from time `i` on and before time `j`. -/
def picksBetween {band : Band} (events : Nat → Event band) (i j : Nat) : Nat :=
  ((List.range j).filter fun t => decide (i ≤ t) && (events t).isPick).length

/-! ## The sorted keys do not depend on the listing -/

/-- The band's keys in the order `Pick` walks them. -/
def Band.ring (band : Band) : List FlowKey :=
  (band.ids.map band.key).insertionSort FlowKey.precedes

variable {listed : List String}

theorem sort_listed (band : Band) (h : listed.Perm band.ids) :
    (listed.map band.key).insertionSort FlowKey.precedes = band.ring :=
  ((List.perm_insertionSort ..).trans ((h.map band.key).trans (List.perm_insertionSort ..).symm)).eq_of_pairwise'
    (List.pairwise_insertionSort ..) (List.pairwise_insertionSort ..)

theorem ring_perm (band : Band) : band.ring.Perm (band.ids.map band.key) := List.perm_insertionSort ..

theorem ring_length (band : Band) : band.ring.length = band.ids.length := by
  rw [(ring_perm band).length_eq, List.length_map]

theorem mem_ring {band : Band} {key : FlowKey} :
    key ∈ band.ring ↔ ∃ id ∈ band.ids, band.key id = key := by
  rw [(ring_perm band).mem_iff, List.mem_map]

theorem key_injective (band : Band) : Function.Injective band.key := by
  intro id id' h
  exact congrArg FlowKey.id h

theorem ring_nodup (band : Band) : band.ring.Nodup :=
  (ring_perm band).nodup_iff.mpr (band.nodup.map (key_injective band))

/-- A flow's place in the ring. -/
def Band.place (band : Band) (id : String) : Nat := band.ring.idxOf (band.key id)

variable {id : String}

theorem place_lt {band : Band} (h : id ∈ band.ids) : band.place id < band.ring.length :=
  List.idxOf_lt_length_of_mem (mem_ring.mpr ⟨id, h, rfl⟩)

theorem getElem?_place {band : Band} (h : id ∈ band.ids) : band.ring[band.place id]? = some (band.key id) :=
  List.getElem?_idxOf (mem_ring.mpr ⟨id, h, rfl⟩)

theorem exists_place {band : Band} {i : Nat} (h : i < band.ring.length) :
    ∃ id ∈ band.ids, band.place id = i ∧ band.ring[i]? = some (band.key id) := by
  obtain ⟨id, hid, hkey⟩ := mem_ring.mp (List.getElem_mem h)
  refine ⟨id, hid, ?_, ?_⟩
  · unfold Band.place
    rw [hkey]
    exact (ring_nodup band).idxOf_getElem i h
  · rw [List.getElem?_eq_getElem h, hkey]

theorem place_injective {band : Band} {id' : String} (h : id ∈ band.ids) (h' : id' ∈ band.ids)
    (heq : band.place id = band.place id') : id = id' := by
  have hkey : Option.some (band.key id) = some (band.key id') := by
    rw [← getElem?_place h, ← getElem?_place h', heq]
  exact key_injective band (Option.some.inj hkey)

/-! ## One pick -/

/-- Where the next pick of the band starts. -/
def Band.start (band : Band) (s : State) : Nat := startIndex s.lastSelected band.ring

theorem start_lt {band : Band} (s : State) (h : band.ids ≠ []) : band.start s < band.ring.length := by
  have hpos : 0 < band.ring.length := by
    rw [ring_length]
    exact List.length_pos_iff.mpr h
  unfold Band.start startIndex
  split
  · exact hpos
  · split
    · exact Nat.mod_lt _ hpos
    · exact hpos

variable {s : State}

theorem start_selected {band : Band} (hid : id ∈ band.ids) (h : s.lastSelected = some (band.key id)) :
    band.start s = (band.place id + 1) % band.ring.length := by
  unfold Band.start startIndex
  rw [h]
  exact if_pos (mem_ring.mpr ⟨id, hid, rfl⟩)

/-- How many flows the next pick looks at before the flow `id`. -/
def waiting (band : Band) (s : State) (id : String) : Nat :=
  ahead band.ring.length (band.start s) (band.place id)

theorem waiting_lt {band : Band} (s : State) (hid : id ∈ band.ids) : waiting band s id < band.ids.length := by
  rw [← ring_length]
  exact ahead_lt (start_lt s (List.ne_nil_of_mem hid)) (place_lt hid)

theorem pick_eq (band : Band) (s : State) (h : listed.Perm band.ids) (hne : band.ids ≠ []) :
    pick band s (listed.map band.key) =
      match rotate band.ring.length (band.start s) (fun i => (band.ring[i]?).any (hasItem band s)) with
      | some i => (band.ring[i]?, band.ring[i]?)
      | none => (none, none) := by
  have hlisted : listed.map band.key ≠ [] := by
    intro hnil
    refine hne (List.Perm.nil_eq ?_).symm
    rw [← List.map_eq_nil_iff.mp hnil]
    exact h
  unfold pick
  rw [if_neg hlisted, sort_listed band h]
  rfl

/-- **While a flow has an item, a pick selects some flow, none of those behind
the waiting one, and leaves the cursor on it.** -/
theorem pick_spec {band : Band} (hid : id ∈ band.ids) (hitem : 0 < s.len id) (h : listed.Perm band.ids) :
    ∃ id' ∈ band.ids, pick band s (listed.map band.key) = (some (band.key id'), some (band.key id')) ∧
      waiting band s id' ≤ waiting band s id := by
  have hne := List.ne_nil_of_mem hid
  have hwanted : (band.ring[band.place id]?).any (hasItem band s) = true := by
    rw [getElem?_place hid]
    simp [hasItem, Band.key, hid, hitem]
  have hstops : ∃ i, rotate band.ring.length (band.start s) (fun i => (band.ring[i]?).any (hasItem band s)) = some i :=
    rotate_isSome (start_lt s hne) (place_lt hid) hwanted
  obtain ⟨i, hi⟩ := hstops
  obtain ⟨hlt, -, hfirst⟩ := rotate_spec (start_lt s hne) hi
  obtain ⟨id', hid', hplace, hget⟩ := exists_place hlt
  refine ⟨id', hid', ?_, ?_⟩
  · rw [pick_eq band s h hne, hi]
    exact congrArg₂ Prod.mk hget hget
  · unfold waiting
    rw [hplace]
    exact hfirst _ (place_lt hid) hwanted

/-! ## Steps -/

theorem waiting_step_of_not_pick {band : Band} {e : Event band} (h : e.isPick = false)
    (id : String) : waiting band (step band s e) id = waiting band s id := by
  cases e with
  | add id' | remove id' => rfl
  | pick listed perm => cases h

theorem step_pick {band : Band} {e : Event band} (hid : id ∈ band.ids) (hitem : 0 < s.len id) (he : e.isPick = true) :
    ∃ id' ∈ band.ids, selected band s e = some (band.key id') ∧ waiting band s id' ≤ waiting band s id ∧
      ∀ b ∈ band.ids, waiting band s id' < waiting band s b →
        waiting band (step band s e) b + waiting band s id' + 1 = waiting band s b := by
  cases e with
  | add id' | remove id' => cases he
  | pick listed perm =>
    obtain ⟨id', hid', hpick, hle⟩ := pick_spec hid hitem perm
    have hlast : (step band s (.pick listed perm)).lastSelected = some (band.key id') := congrArg Prod.snd hpick
    refine ⟨id', hid', congrArg Prod.fst hpick, hle, ?_⟩
    intro b hb hlt
    have hnext := ahead_next (start_lt s (List.ne_nil_of_mem hid)) (place_lt hb) (place_lt hid') hlt
    rw [← start_selected hid' hlast] at hnext
    exact hnext

theorem waiting_injective {band : Band} {id' : String} (hid : id ∈ band.ids)
    (hid' : id' ∈ band.ids) (h : waiting band s id = waiting band s id') : id = id' :=
  place_injective hid hid' (ahead_inj (start_lt s (List.ne_nil_of_mem hid)) (place_lt hid') (place_lt hid) h)

theorem waiting_of_selected {band : Band} {e : Event band} (hid : id ∈ band.ids)
    (h : selected band s e = some (band.key id)) :
    waiting band (step band s e) id + 1 = band.ids.length := by
  cases e with
  | add id' | remove id' => cases h
  | pick listed perm =>
    have hsnd : (step band s (.pick listed perm)).lastSelected = some (band.key id) := by
      refine Eq.trans ?_ h
      show (pick band s (listed.map band.key)).2 = (pick band s (listed.map band.key)).1
      unfold pick
      dsimp only
      split
      · rfl
      · split <;> rfl
    unfold waiting
    rw [start_selected hid hsnd, ← ring_length]
    exact ahead_self (place_lt hid)

theorem waiting_step {band : Band} {e : Event band} (hid : id ∈ band.ids)
    (hitem : 0 < s.len id) (hnot : selected band s e ≠ some (band.key id)) :
    waiting band (step band s e) id + (if e.isPick then 1 else 0) ≤ waiting band s id := by
  cases hpick : e.isPick with
  | false => exact (waiting_step_of_not_pick hpick id).le
  | true =>
    obtain ⟨id', hid', hsel, hle, hnear⟩ := step_pick hid hitem hpick
    have hne : waiting band s id' ≠ waiting band s id := by
      intro heq
      exact hnot (waiting_injective hid' hid heq ▸ hsel)
    have hnext := hnear id hid (by omega)
    simp only [if_true]
    omega

theorem behind_step {band : Band} {a : String} {e : Event band} (ha : a ∈ band.ids)
    (hid : id ∈ band.ids) (hitem : 0 < s.len id) (hbehind : waiting band s id < waiting band s a) :
    selected band s e ≠ some (band.key a) ∧
      (selected band s e ≠ some (band.key id) →
        waiting band (step band s e) id < waiting band (step band s e) a) := by
  cases hpick : e.isPick with
  | false =>
    refine ⟨?_, ?_⟩
    · cases e with
      | add id' | remove id' => simp [selected]
      | pick listed perm => cases hpick
    · intro _
      rw [waiting_step_of_not_pick hpick, waiting_step_of_not_pick hpick]
      exact hbehind
  | true =>
    obtain ⟨id', hid', hsel, hle, hnear⟩ := step_pick hid hitem hpick
    refine ⟨?_, ?_⟩
    · intro hsela
      rw [hsel] at hsela
      have heq := key_injective band (Option.some.inj hsela)
      rw [heq] at hle
      omega
    · intro hnot
      have hne : waiting band s id' ≠ waiting band s id := by
        intro heq
        exact hnot (waiting_injective hid' hid heq ▸ hsel)
      have hnearId := hnear id hid (by omega)
      have hnearA := hnear a ha (by omega)
      omega

/-! ## Runs -/

section Runs

variable {band : Band} {s₀ : State} {events : Nat → Event band} {i j : Nat}

theorem picksBetween_succ (h : i ≤ j) :
    picksBetween events i (j + 1) = picksBetween events i j + (if (events j).isPick then 1 else 0) := by
  unfold picksBetween
  rw [List.range_succ, List.filter_append, List.length_append]
  cases hpick : (events j).isPick <;> simp [h, hpick]

theorem selectedAt_mem {t : Nat} {key : FlowKey} (h : selectedAt s₀ events t = some key) :
    ∃ id ∈ band.ids, key = band.key id := by
  unfold selectedAt at h
  cases he : events t with
  | add id | remove id => rw [he] at h; cases h
  | pick listed perm =>
    rw [he] at h
    simp only [selected] at h
    by_cases hne : band.ids = []
    · rw [hne] at perm
      rw [List.perm_nil.mp perm] at h
      cases h
    · rw [pick_eq band _ perm hne] at h
      split at h
      · obtain ⟨id, hid, hkey⟩ := mem_ring.mp (List.mem_of_getElem? h)
        exact ⟨id, hid, hkey.symm⟩
      · cases h

theorem waiting_run (hid : id ∈ band.ids) (hij : i ≤ j)
    (hitem : ∀ t, i ≤ t → t < j → 0 < (stateAt s₀ events t).len id)
    (hnot : ∀ t, i ≤ t → t < j → selectedAt s₀ events t ≠ some (band.key id)) :
    waiting band (stateAt s₀ events j) id + picksBetween events i j ≤ waiting band (stateAt s₀ events i) id := by
  induction j, hij using Nat.le_induction with
  | base =>
    have hnone : picksBetween events i i = 0 := by
      unfold picksBetween
      rw [List.length_eq_zero_iff, List.filter_eq_nil_iff]
      intro t ht
      simp only [List.mem_range] at ht
      simp [ht]
    omega
  | succ j hij ih =>
    have hprev := ih (fun t ht htj => hitem t ht (by omega)) (fun t ht htj => hnot t ht (by omega))
    have hstep := waiting_step hid (hitem j hij (by omega)) (hnot j hij (by omega))
    rw [picksBetween_succ hij]
    simp only [stateAt]
    omega

theorem behind_run {a : String} (ha : a ∈ band.ids) (hid : id ∈ band.ids) (hij : i ≤ j)
    (hbehind : waiting band (stateAt s₀ events i) id < waiting band (stateAt s₀ events i) a)
    (hitem : ∀ t, i ≤ t → t < j → 0 < (stateAt s₀ events t).len id)
    (hnot : ∀ t, i ≤ t → t < j → selectedAt s₀ events t ≠ some (band.key id)) :
    waiting band (stateAt s₀ events j) id < waiting band (stateAt s₀ events j) a := by
  induction j, hij using Nat.le_induction with
  | base => exact hbehind
  | succ j hij ih =>
    have hprev := ih (fun t ht htj => hitem t ht (by omega)) (fun t ht htj => hnot t ht (by omega))
    exact (behind_step ha hid (hitem j hij (by omega)) hprev).2 (hnot j hij (by omega))

theorem selected_between {a : String} (ha : a ∈ band.ids) (hid : id ∈ band.ids) (hne : id ≠ a)
    (hij : i < j) (hi : selectedAt s₀ events i = some (band.key a))
    (hj : selectedAt s₀ events j = some (band.key a))
    (hitem : ∀ t, i < t → t ≤ j → 0 < (stateAt s₀ events t).len id) :
    ∃ t, i < t ∧ t < j ∧ selectedAt s₀ events t = some (band.key id) := by
  by_contra hnone
  push Not at hnone
  have hlast := waiting_of_selected ha hi
  have hfirst : waiting band (stateAt s₀ events (i + 1)) id < waiting band (stateAt s₀ events (i + 1)) a := by
    have hlt := waiting_lt (stateAt s₀ events (i + 1)) hid
    have hdiff : waiting band (stateAt s₀ events (i + 1)) id ≠ waiting band (stateAt s₀ events (i + 1)) a :=
      fun heq => hne (waiting_injective hid ha heq)
    have hlast' : waiting band (stateAt s₀ events (i + 1)) a + 1 = band.ids.length := hlast
    omega
  have hrun := behind_run ha hid hij hfirst (fun t ht htj => hitem t ht (by omega)) (fun t ht htj => hnone t ht htj)
  exact (behind_step ha hid (hitem j hij le_rfl) hrun).1 hj

/-- **Round-robin is fair.** Whatever is added and removed between picks and
however each pick lists the flows: between two picks of one flow, every other
flow that had an item all along is picked; and a flow that keeps an item is
picked by one of any `n` consecutive picks, `n` the number of flows. -/
theorem round_robin_fair (band : Band) (s₀ : State) (events : Nat → Event band) :
    (∀ (i j : Nat) (key : FlowKey) (id : String), i < j → id ∈ band.ids → band.key id ≠ key →
      selectedAt s₀ events i = some key → selectedAt s₀ events j = some key →
      (∀ t, i < t → t ≤ j → 0 < (stateAt s₀ events t).len id) →
      ∃ t, i < t ∧ t < j ∧ selectedAt s₀ events t = some (band.key id)) ∧
    (∀ (i j : Nat) (id : String), i ≤ j → id ∈ band.ids → picksBetween events i j = band.ids.length →
      (∀ t, i ≤ t → t < j → 0 < (stateAt s₀ events t).len id) →
      ∃ t, i ≤ t ∧ t < j ∧ selectedAt s₀ events t = some (band.key id)) := by
  refine ⟨?_, ?_⟩
  · intro i j key id hij hid hne hi hj hitem
    obtain ⟨a, ha, rfl⟩ := selectedAt_mem hi
    exact selected_between ha hid (fun heq => hne (congrArg band.key heq)) hij hi hj hitem
  · intro i j id hij hid hn hitem
    by_contra hnone
    push Not at hnone
    have hrun := waiting_run hid hij hitem hnone
    have hlt := waiting_lt (stateAt s₀ events i) hid
    omega

/-- Two flows that always have an item: the picks alternate. -/
theorem round_robin_fair_two_flows :
    ∃ (band : Band) (s₀ : State) (events : Nat → Event band), band.ids = ["b", "a"] ∧
      selectedAt s₀ events 0 = some (band.key "a") ∧ selectedAt s₀ events 2 = some (band.key "a") ∧
      (∃ t, 0 < t ∧ t < 2 ∧ selectedAt s₀ events t = some (band.key "b")) ∧
      (∃ t, 1 ≤ t ∧ t < 3 ∧ selectedAt s₀ events t = some (band.key "a")) := by
  let band : Band := ⟨0, ["b", "a"], by decide⟩
  let events : Nat → Event band := fun _ => .pick ["b", "a"] (List.Perm.refl _)
  let s₀ : State := ⟨none, fun _ => 1⟩
  have h₀ : selectedAt s₀ events 0 = some (band.key "a") := by decide +kernel
  have h₂ : selectedAt s₀ events 2 = some (band.key "a") := by decide +kernel
  have hitem : ∀ t, 0 < (stateAt s₀ events t).len "a" ∧ 0 < (stateAt s₀ events t).len "b" := by
    intro t
    induction t with
    | zero => decide
    | succ t ih => exact ih
  obtain ⟨hbetween, hwithin⟩ := round_robin_fair band s₀ events
  refine ⟨band, s₀, events, rfl, h₀, h₂, ?_, ?_⟩
  · exact hbetween 0 2 _ "b" (by decide) (by decide) (by decide) h₀ h₂ (fun t _ _ => (hitem t).2)
  · exact hwithin 1 3 "a" (by decide) (by decide) (by decide +kernel) (fun t _ _ => (hitem t).1)

end Runs

end RoundRobin

end InferenceScheduler
