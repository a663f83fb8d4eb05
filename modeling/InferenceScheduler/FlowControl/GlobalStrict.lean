/-
The fairness policy that takes the best head of all flows
(`flowcontrol/fairness/globalstrict/global_strict.go`) and the band it is used
on (`processor.go`: `selectItem`, `dispatchItem`). With one strict total order
for all queues it finds the least item of the band in whatever order the map is
visited.
-/
import InferenceScheduler.Types
import InferenceScheduler.Lib.Run
import Mathlib.Data.List.Perm.Basic

namespace InferenceScheduler.GlobalStrict

open Function (update update_of_ne)

def errIncompatiblePriorityType : String := "incompatible priority score type for comparison"

structure OrderingPolicy (α : Type) where
  type : String
  less : α → α → Bool

/-- A queue of the band, the item `PeekHead` returns first. -/
structure FlowQueue (α : Type) where
  flow : String
  policy : OrderingPolicy α
  items : List α

/-- The loop of `Pick`, with the best queue and item so far. -/
def pickLoop {α : Type} : Option (FlowQueue α × α) → List (FlowQueue α) → Except GoError (Option (FlowQueue α))
  | best, [] => .ok (best.map (·.1))
  | best, queue :: queues =>
    match queue.items.head? with
    | none => pickLoop best queues
    | some item =>
      match best with
      | none => pickLoop (some (queue, item)) queues
      | some (bestQueue, bestItem) =>
        if queue.policy.type ≠ bestQueue.policy.type then
          .error (.errorf "%w: expected %q, got %q" [.sentinel errIncompatiblePriorityType])
        else if bestQueue.policy.less item bestItem then pickLoop (some (queue, item)) queues
        else pickLoop best queues

/-- `Pick`; a nil band is `none`. -/
def pick {α : Type} : Option (List (FlowQueue α)) → Except GoError (Option (FlowQueue α))
  | none => .ok none
  | some queues => pickLoop none queues

section

variable {α : Type}

/-- The first item is the least. -/
def HeadLeast (less : α → α → Bool) (items : List α) : Prop := ∀ x ∈ items.head?, ∀ y ∈ items, y = x ∨ less x y

/-- `less` is a strict total order. -/
structure StrictTotal (less : α → α → Bool) : Prop where
  irrefl : ∀ x, less x x = false
  trans : ∀ x y z, less x y → less y z → less x z
  total : ∀ x y, x = y ∨ less x y ∨ less y x

variable {less : α → α → Bool}

theorem StrictTotal.le_trans (h : StrictTotal less) {x y z : α} (hxy : y = x ∨ less x y)
    (hyz : z = y ∨ less y z) : z = x ∨ less x z := by
  rcases hxy with rfl | hxy
  · exact hyz
  · rcases hyz with rfl | hyz
    · exact .inr hxy
    · exact .inr (h.trans _ _ _ hxy hyz)

/-- The least head of the queues and a best candidate so far. -/
def Best (less : α → α → Bool) (best : Option (FlowQueue α × α)) (queues : List (FlowQueue α)) :
    Option (FlowQueue α) → Prop
  | none => best = none ∧ ∀ queue ∈ queues, queue.items = []
  | some q => (q ∈ queues ∨ ∃ x, best = some (q, x)) ∧ ∃ x, q.items.head? = some x ∧
      (∀ b ∈ best, b.2 = x ∨ less x b.2) ∧ ∀ queue ∈ queues, ∀ y ∈ queue.items.head?, y = x ∨ less x y

theorem Best.cons {less : α → α → Bool} {best : Option (FlowQueue α × α)} {queue : FlowQueue α}
    {queues : List (FlowQueue α)} {r : Option (FlowQueue α)} (hb : Best less best queues r)
    (hempty : r = none → queue.items = [])
    (hle : ∀ x, (∀ b ∈ best, b.2 = x ∨ less x b.2) → ∀ y ∈ queue.items.head?, y = x ∨ less x y) :
    Best less best (queue :: queues) r := by
  cases r with
  | none => exact ⟨hb.1, List.forall_mem_cons.mpr ⟨hempty rfl, hb.2⟩⟩
  | some q =>
    obtain ⟨hmem, x, hx, hbx, hqs⟩ := hb
    exact ⟨hmem.imp_left (List.mem_cons_of_mem _), x, hx, hbx, List.forall_mem_cons.mpr ⟨hle x hbx, hqs⟩⟩

/-- **The loop finds the least head**, in whatever order the queues come. -/
theorem pickLoop_spec {P : OrderingPolicy α} (hless : StrictTotal P.less) : ∀ {queues : List (FlowQueue α)}
    {best : Option (FlowQueue α × α)}, (∀ queue ∈ queues, queue.policy = P) →
    (∀ b ∈ best, b.1.policy = P ∧ b.1.items.head? = some b.2) →
    ∃ r, pickLoop best queues = .ok r ∧ Best P.less best queues r
  | [], best, _, hbest => by
    refine ⟨_, rfl, ?_⟩
    cases best with
    | none => exact ⟨rfl, by simp⟩
    | some b => exact ⟨.inr ⟨b.2, rfl⟩, b.2, (hbest b rfl).2, by simp, by simp⟩
  | queue :: queues, best, hP, hbest => by
    have hP' : ∀ q ∈ queues, q.policy = P := fun q hq => hP q (List.mem_cons_of_mem _ hq)
    unfold pickLoop
    cases hhead : queue.items.head? with
    | none =>
      obtain ⟨r, hr, hb⟩ := pickLoop_spec hless hP' hbest
      refine ⟨r, hr, hb.cons (fun _ => List.head?_eq_none_iff.mp hhead) fun x _ y hy => ?_⟩
      rw [hhead] at hy
      cases hy
    | some item =>
      -- the new candidate is the better of the old one and this head
      have hnew : ∀ b ∈ Option.some (queue, item), b.1.policy = P ∧ b.1.items.head? = some b.2 := by
        rintro _ ⟨⟩
        exact ⟨hP queue (by simp), hhead⟩
      have hself : ∀ {r : Option (FlowQueue α)}, Best P.less (some (queue, item)) queues r →
          (∀ b ∈ best, b.2 = item ∨ P.less item b.2) → Best P.less best (queue :: queues) r := by
        intro r hb hle
        cases r with
        | none => cases hb.1
        | some q =>
          obtain ⟨hmem, x, hx, hbx, hqs⟩ := hb
          have hitem := hbx (queue, item) rfl
          refine ⟨.inl ?_, x, hx, fun b hb => hless.le_trans hitem (hle b hb), fun q' hq' y hy => ?_⟩
          · rcases hmem with hmem | ⟨z, hz⟩
            · exact List.mem_cons_of_mem _ hmem
            · cases hz
              exact List.mem_cons_self
          · rcases List.mem_cons.mp hq' with rfl | hq'
            · rw [hhead] at hy
              cases hy
              exact hitem
            · exact hqs q' hq' y hy
      cases best with
      | none =>
        obtain ⟨r, hr, hb⟩ := pickLoop_spec hless hP' hnew
        exact ⟨r, hr, hself hb (by simp)⟩
      | some b =>
        obtain ⟨bestQueue, bestItem⟩ := b
        have hpolicy : bestQueue.policy = P := (hbest _ rfl).1
        simp only [hpolicy, hP queue (by simp), ne_eq, not_true_eq_false, if_false]
        split
        · next hlt =>
          obtain ⟨r, hr, hb⟩ := pickLoop_spec hless hP' hnew
          refine ⟨r, hr, hself hb ?_⟩
          rintro _ ⟨⟩
          exact .inr hlt
        · next hlt =>
          obtain ⟨r, hr, hb⟩ := pickLoop_spec hless hP' hbest
          refine ⟨r, hr, hb.cons (fun h => ?_) fun x hbx y hy => ?_⟩
          · subst h
            cases hb.1
          · rw [hhead] at hy
            cases hy
            refine hless.le_trans (hbx _ rfl) ?_
            rcases hless.total item bestItem with heq | hlt' | hgt
            · exact .inl heq
            · exact absurd hlt' hlt
            · exact .inr hgt

/-! ## The band -/

structure Band (α : Type) where
  queues : String → List α
  out : List α

/-- A queue that changes arranges its items; a pick goes through the flows in some order. -/
inductive Act (α : Type)
  | add (flow : String) (item : α) (items : List α)
  | dispatch (order : List String) (items : List α)

variable (flows : List String) (policy : String → OrderingPolicy α)

/-- What `IterateQueues` yields for an order of the flows. -/
def Band.accessors (s : Band α) (order : List String) : List (FlowQueue α) :=
  order.map fun flow => { flow, policy := policy flow, items := s.queues flow }

/-- A dispatch removes the head of the queue that is picked. -/
def step (s : Band α) : Act α → Option (Band α)
  | .add flow _ items => some { s with queues := update s.queues flow items }
  | .dispatch order items =>
    match pick (some (s.accessors policy order)) with
    | .ok (some queue) =>
      match queue.items.head? with
      | some item => some { queues := update s.queues queue.flow items, out := s.out ++ [item] }
      | none => none
    | _ => none

/-- An addition is to one of the flows, a pick visits each flow, and a queue holds
its least item first. -/
def Orderly (less : α → α → Bool) (s : Band α) : Act α → Prop
  | .add flow item items => flow ∈ flows ∧ items.Perm (item :: s.queues flow) ∧ HeadLeast less items
  | .dispatch order items => order.Perm flows ∧ HeadLeast less items ∧ ∀ queue,
      pick (some (s.accessors policy order)) = .ok (some queue) → items.Perm queue.items.tail

def Act.isDispatch : Act α → Bool
  | .add .. => false
  | .dispatch .. => true

/-- All queued items. -/
def Band.items (s : Band α) : List α := flows.flatMap s.queues

variable {flows policy} {P : OrderingPolicy α} {s : Band α}

/-- **`Pick` returns** a queue whose head is the least item of the band, or none if
the band is empty. -/
theorem pick_spec (hless : StrictTotal P.less) (hpolicy : ∀ flow ∈ flows, policy flow = P)
    (hs : ∀ flow ∈ flows, HeadLeast P.less (s.queues flow)) {order : List String} (horder : order.Perm flows) :
    (pick (some (s.accessors policy order)) = .ok none ∧ s.items flows = []) ∨
      ∃ flow ∈ flows, ∃ x, (s.queues flow).head? = some x ∧
        pick (some (s.accessors policy order)) = .ok (some ⟨flow, policy flow, s.queues flow⟩) ∧
        ∀ y ∈ s.items flows, y = x ∨ P.less x y := by
  have hP : ∀ queue ∈ s.accessors policy order, queue.policy = P := by
    intro queue hq
    obtain ⟨flow, hflow, rfl⟩ := List.mem_map.mp hq
    exact hpolicy flow (horder.mem_iff.mp hflow)
  have hnone : ∀ b ∈ (none : Option (FlowQueue α × α)), b.1.policy = P ∧ b.1.items.head? = some b.2 := by simp
  obtain ⟨r, hr, hb⟩ := pickLoop_spec hless hP hnone
  cases r with
  | none =>
    refine .inl ⟨hr, List.flatMap_eq_nil_iff.mpr fun flow hflow => ?_⟩
    exact hb.2 _ (List.mem_map.mpr ⟨flow, horder.mem_iff.mpr hflow, rfl⟩)
  | some q =>
    obtain ⟨hmem, x, hx, -, hqs⟩ := hb
    have hq : q ∈ s.accessors policy order := hmem.resolve_right (by simp)
    obtain ⟨flow, hflow, rfl⟩ := List.mem_map.mp hq
    refine .inr ⟨flow, horder.mem_iff.mp hflow, x, hx, hr, fun y hy => ?_⟩
    obtain ⟨flow', hflow', hy⟩ := List.mem_flatMap.mp hy
    obtain ⟨z, hz⟩ : ∃ z, (s.queues flow').head? = some z := by
      cases hl : s.queues flow' with
      | nil => simp [hl] at hy
      | cons z l => exact ⟨z, rfl⟩
    exact hless.le_trans (hqs _ (List.mem_map.mpr ⟨flow', horder.mem_iff.mpr hflow', rfl⟩) z hz)
      (hs flow' hflow' z hz y hy)

theorem headLeast_of_reaches {s₀ : Band α} (h₀ : ∀ flow ∈ flows, HeadLeast less (s₀.queues flow))
    (hs : Reaches (step policy) (Orderly flows policy less) s₀ s) : ∀ flow ∈ flows, HeadLeast less (s.queues flow) := by
  refine hs.invariant (fun s => ∀ flow ∈ flows, HeadLeast less (s.queues flow)) h₀ ?_
  intro s a s' hI hok hstep flow hflow
  have hupdate : ∀ {flow' : String} {items : List α}, HeadLeast less items →
      HeadLeast less (update s.queues flow' items flow) := by
    intro flow' items hitems
    rw [Function.update_apply]
    split
    · exact hitems
    · exact hI flow hflow
  cases a with
  | add flow' item items =>
    cases hstep
    exact hupdate hok.2.2
  | dispatch order items =>
    simp only [step] at hstep
    split at hstep
    · split at hstep
      · cases hstep
        exact hupdate hok.2.1
      · cases hstep
    · cases hstep

theorem items_update_perm {x : α} {l : List α} {q : String → List α} {flow : String} (hq : (q flow).Perm (x :: l)) :
    ∀ {flows : List String}, flows.Nodup → flow ∈ flows →
      (flows.flatMap q).Perm (x :: flows.flatMap (update q flow l))
  | [], _, hmem => by cases hmem
  | flow' :: flows, hnodup, hmem => by
    obtain ⟨hnot, hnodup⟩ := List.nodup_cons.mp hnodup
    rw [List.flatMap_cons, List.flatMap_cons]
    rcases List.mem_cons.mp hmem with rfl | hmem
    · have hrest : flows.flatMap (update q flow l) = flows.flatMap q := by
        refine List.flatMap_congr fun k hk => update_of_ne ?_ _ _
        rintro rfl
        exact hnot hk
      rw [Function.update_self, hrest]
      exact hq.append_right _
    · have hne : flow' ≠ flow := by
        rintro rfl
        exact hnot hmem
      rw [update_of_ne hne]
      exact ((items_update_perm hq hnodup hmem).append_left _).trans List.perm_middle

/-- Dispatches alone have given out the least items of `s` in order. -/
def Drained (less : α → α → Bool) (flows : List String) (s s' : Band α) : Prop :=
  ∃ l, s'.out = s.out ++ l ∧ (l ++ s'.items flows).Perm (s.items flows) ∧ l.Pairwise (fun x y => y = x ∨ less x y) ∧
    ∀ x ∈ l, ∀ y ∈ s'.items flows, y = x ∨ less x y

theorem drained_of_reaches (hless : StrictTotal P.less) (hpolicy : ∀ flow ∈ flows, policy flow = P)
    (hnodup : flows.Nodup) {s' : Band α} (h : ∀ flow ∈ flows, HeadLeast P.less (s.queues flow))
    (hs : Reaches (step policy) (fun s a => Orderly flows policy P.less s a ∧ a.isDispatch) s s') :
    Drained P.less flows s s' := by
  refine (hs.invariant (fun s' => Drained P.less flows s s' ∧ ∀ flow ∈ flows, HeadLeast P.less (s'.queues flow))
    ⟨⟨[], by simp, by simp, .nil, by simp⟩, h⟩ ?_).1
  rintro t a t' ⟨⟨l, hout, hperm, hsorted, hle⟩, hhead⟩ ⟨hok, hd⟩ hstep
  refine ⟨?_, headLeast_of_reaches hhead (.next .init hok hstep)⟩
  cases a with
  | add => cases hd
  | dispatch order items =>
    rcases pick_spec hless hpolicy hhead hok.1 with ⟨hpick, -⟩ | ⟨flow, hflow, x, hx, hpick, hleast⟩
    · simp [step, hpick] at hstep
    · have hitems : items.Perm (t.queues flow).tail := hok.2.2 _ hpick
      simp only [step, hpick, hx] at hstep
      cases hstep
      have hq : (t.queues flow).Perm (x :: items) := by
        rw [List.eq_cons_of_mem_head? hx]
        exact hitems.symm.cons x
      have hmoved : (t.items flows).Perm (x :: Band.items flows ⟨update t.queues flow items, t.out ++ [x]⟩) :=
        items_update_perm hq hnodup hflow
      have hin : ∀ y ∈ Band.items flows ⟨update t.queues flow items, t.out ++ [x]⟩, y ∈ t.items flows :=
        fun y hy => hmoved.mem_iff.mpr (List.mem_cons_of_mem _ hy)
      refine ⟨l ++ [x], by simp [hout], ?_, ?_, ?_⟩
      · rw [List.append_assoc, List.singleton_append]
        exact (hmoved.symm.append_left l).trans hperm
      · refine List.pairwise_append.mpr ⟨hsorted, List.pairwise_singleton _ _, fun a ha b hb => ?_⟩
        rw [List.mem_singleton.mp hb]
        exact hle a ha x (hmoved.mem_iff.mpr List.mem_cons_self)
      · intro a ha y hy
        rcases List.mem_append.mp ha with ha | ha
        · exact hle a ha y (hin y hy)
        · rw [List.mem_singleton.mp ha]
          exact hleast y (hin y hy)

theorem exists_headLeast (hless : StrictTotal less) : ∀ l : List α, ∃ l' : List α, l'.Perm l ∧ HeadLeast less l'
  | [] => ⟨[], .nil, by simp [HeadLeast]⟩
  | x :: l => by
    obtain ⟨l', hperm, hl'⟩ := exists_headLeast hless l
    cases l' with
    | nil => exact ⟨[x], hperm.cons x, by simp [HeadLeast]⟩
    | cons z l' =>
      have hz := hl' z rfl
      by_cases hxz : less x z
      · refine ⟨x :: z :: l', hperm.cons x, ?_⟩
        rintro _ ⟨⟩ y hy
        rcases List.mem_cons.mp hy with rfl | hy
        · exact .inl rfl
        · exact hless.le_trans (.inr hxz) (hz y hy)
      · refine ⟨z :: x :: l', (List.Perm.swap x z l').trans (hperm.cons x), ?_⟩
        rintro _ ⟨⟩ y hy
        rcases List.mem_cons.mp hy with rfl | hy
        · exact .inl rfl
        · rcases List.mem_cons.mp hy with rfl | hy
          · rcases hless.total y z with heq | hlt | hgt
            · exact .inl heq
            · exact absurd hlt hxz
            · exact .inr hgt
          · exact hz y (List.mem_cons_of_mem _ hy)

/-- Dispatches can go on until the band is empty. -/
theorem exists_drain (hless : StrictTotal P.less) (hpolicy : ∀ flow ∈ flows, policy flow = P) (hnodup : flows.Nodup) :
    ∀ (n : Nat) (s : Band α), (s.items flows).length = n → (∀ flow ∈ flows, HeadLeast P.less (s.queues flow)) →
      ∃ s', Reaches (step policy) (fun s a => Orderly flows policy P.less s a ∧ a.isDispatch) s s' ∧ s'.items flows = []
  | 0, s, hn, _ => ⟨s, .init, List.length_eq_zero_iff.mp hn⟩
  | n + 1, s, hn, hhead => by
    rcases pick_spec hless hpolicy hhead (.refl flows) with ⟨-, hempty⟩ | ⟨flow, hflow, x, hx, hpick, -⟩
    · exact ⟨s, .init, hempty⟩
    · obtain ⟨items, hperm, hitems⟩ := exists_headLeast hless (s.queues flow).tail
      have hok : Orderly flows policy P.less s (.dispatch flows items) := by
        refine ⟨.refl flows, hitems, fun queue hq => ?_⟩
        rw [hpick] at hq
        cases hq
        exact hperm
      have hstep : step policy s (.dispatch flows items) =
          some ⟨update s.queues flow items, s.out ++ [x]⟩ := by simp [step, hpick, hx]
      have hq : (s.queues flow).Perm (x :: items) := by
        rw [List.eq_cons_of_mem_head? hx]
        exact hperm.symm.cons x
      have hlen := (items_update_perm hq hnodup hflow).length_eq
      obtain ⟨s', hs', hempty⟩ := exists_drain hless hpolicy hnodup n
        ⟨update s.queues flow items, s.out ++ [x]⟩
        (by simp only [Band.items, List.length_cons] at hn hlen ⊢; omega)
        (headLeast_of_reaches hhead (.next .init hok hstep))
      exact ⟨s', .trans (.next .init ⟨hok, rfl⟩ hstep) hs', hempty⟩

/-- **Global strict merges the flows in order.** In every band that additions and
dispatches lead to, whatever the order of the queues, a pick returns a queue
whose head is before all other items, and none only if there are no items; and
dispatches alone can empty the band, and give out all its items sorted. -/
theorem picks_in_order {α : Type} {flows : List String} {policy : String → OrderingPolicy α} {P : OrderingPolicy α}
    (hless : StrictTotal P.less) (hpolicy : ∀ flow ∈ flows, policy flow = P) (hnodup : flows.Nodup) {s₀ s : Band α}
    (h₀ : ∀ flow ∈ flows, HeadLeast P.less (s₀.queues flow))
    (hs : Reaches (step policy) (Orderly flows policy P.less) s₀ s) :
    (∀ order : List String, order.Perm flows →
      (pick (some (s.accessors policy order)) = .ok none ∧ s.items flows = []) ∨
        ∃ flow ∈ flows, ∃ x, (s.queues flow).head? = some x ∧
          pick (some (s.accessors policy order)) = .ok (some ⟨flow, policy flow, s.queues flow⟩) ∧
          ∀ y ∈ s.items flows, y = x ∨ P.less x y) ∧
      (∃ s', Reaches (step policy) (fun s a => Orderly flows policy P.less s a ∧ a.isDispatch) s s' ∧
        s'.items flows = []) ∧
      ∀ s', Reaches (step policy) (fun s a => Orderly flows policy P.less s a ∧ a.isDispatch) s s' →
        s'.items flows = [] →
        ∃ l, s'.out = s.out ++ l ∧ l.Perm (s.items flows) ∧ l.Pairwise (fun x y => y = x ∨ P.less x y) := by
  have hhead := headLeast_of_reaches h₀ hs
  refine ⟨fun order horder => pick_spec hless hpolicy hhead horder, exists_drain hless hpolicy hnodup _ s rfl hhead,
    fun s' hs' hempty => ?_⟩
  obtain ⟨l, hout, hperm, hsorted, -⟩ := drained_of_reaches hless hpolicy hnodup hhead hs'
  rw [hempty, List.append_nil] at hperm
  exact ⟨l, hout, hperm, hsorted⟩

/-- Numbers in increasing order. -/
def increasing : OrderingPolicy Nat := { type := "increasing", less := fun x y => x < y }

theorem increasing_strictTotal : StrictTotal increasing.less where
  irrefl x := by simp [increasing]
  trans x y z hxy hyz := by
    simp only [increasing, decide_eq_true_eq] at hxy hyz ⊢
    omega
  total x y := by
    simp only [increasing, decide_eq_true_eq]
    omega

def twoFlows : Band Nat := { queues := fun flow => if flow = "a" then [1, 3] else [2], out := [] }

/-- Two flows with three items are given out in order. -/
theorem picks_in_order_two_flows :
    ∃ s' l, Reaches (step fun _ => increasing) (fun s a =>
        Orderly ["a", "b"] (fun _ => increasing) increasing.less s a ∧ a.isDispatch) twoFlows s' ∧
      s'.out = l ∧ l.Perm [1, 3, 2] ∧ l.Pairwise (fun x y => y = x ∨ increasing.less x y) := by
  have h₀ : ∀ flow ∈ ["a", "b"], HeadLeast increasing.less (twoFlows.queues flow) := by
    simp [HeadLeast, twoFlows, increasing]
  obtain ⟨-, ⟨s', hs', hempty⟩, hdrain⟩ := picks_in_order increasing_strictTotal (fun flow _ => rfl)
    (show ["a", "b"].Nodup by decide) h₀ .init
  obtain ⟨l, hout, hperm, hsorted⟩ := hdrain s' hs' hempty
  exact ⟨s', l, hs', hout, hperm, hsorted⟩

end

end InferenceScheduler.GlobalStrict
