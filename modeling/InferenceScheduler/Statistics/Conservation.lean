/-
Conservation of the statistics. What a counter has been told of a queue is what
the queue holds, less the part of an operation in progress that has not been
reported to this counter yet (`told`). So each counter is the sum of what it has
been told (`Invariant.balanced`), in 64-bit arithmetic and for any sizes.
-/
import InferenceScheduler.Statistics.ManagedQueue
import Mathlib.Algebra.Order.BigOperators.Group.Finset
import Mathlib.Tactic.Ring

namespace InferenceScheduler.Statistics

open Function (forall_update_iff update update_of_ne)
open Queue (HandleId World Result)

/-! ## Amounts -/

section

variable {κ ι : Type*} (S : Setup κ ι)

/-- What one item counts. -/
def Setup.weight (m : Measure) (x : ι) : Int := (S.need x m).toNat

def Setup.amount (m : Measure) (l : List ι) : Int := (l.map (S.weight m)).sum

/-- What a change adds to a counter. -/
def Change.signed (ch : Change ι) (m : Measure) : Int :=
  match ch with
  | .added x => S.weight m x
  | .removed l => -S.amount m l

variable {S} {m : Measure} {x : ι} {l : List ι}

theorem weight_nonneg : 0 ≤ S.weight m x := Int.natCast_nonneg _

theorem amount_nonneg : 0 ≤ S.amount m l := by
  refine List.sum_nonneg fun z hz => ?_
  obtain ⟨x, -, rfl⟩ := List.mem_map.mp hz
  exact weight_nonneg

theorem weight_le_amount (hx : x ∈ l) : S.weight m x ≤ S.amount m l := by
  induction l with
  | nil => cases hx
  | cons y l ih =>
    have hsum : S.amount m (y :: l) = S.weight m y + S.amount m l := List.sum_cons
    rw [hsum]
    have hy : 0 ≤ S.weight m y := weight_nonneg
    have hl : 0 ≤ S.amount m l := amount_nonneg
    rcases List.mem_cons.mp hx with rfl | hx
    · omega
    · have := ih hx
      omega

theorem amount_add {l₁ l₂ l₃ l₄ : List ι} (h : (l₁ : Multiset ι) + l₂ = (l₃ : Multiset ι) + l₄) :
    S.amount m l₁ + S.amount m l₂ = S.amount m l₃ + S.amount m l₄ := by
  have hsum := congrArg (fun s : Multiset ι => (s.map (S.weight m)).sum) h
  simpa [Setup.amount] using hsum

theorem cast_weight (m : Measure) (x : ι) : ((S.weight m x : Int) : BitVec 64) = S.need x m := by
  rw [Setup.weight, Int.cast_natCast]
  simp

theorem delta_eq (ch : Change ι) (m : Measure) : ch.delta S.size m = ((ch.signed S m : Int) : BitVec 64) := by
  cases ch with
  | added x =>
    rw [Change.signed, cast_weight]
    cases m <;> rfl
  | removed l =>
    have hfold : ∀ (l : List ι) (d : BitVec 64), l.foldl (fun d x => d - S.need x m) d =
        d - ((S.amount m l : Int) : BitVec 64) := fun l => by
      induction l with
      | nil => simp [Setup.amount]
      | cons x l ih =>
        intro d
        have hsum : S.amount m (x :: l) = S.weight m x + S.amount m l := List.sum_cons
        rw [List.foldl_cons, ih, hsum, Int.cast_add, cast_weight, sub_sub]
    rw [Change.signed, Int.cast_neg, ← zero_sub, ← hfold]
    cases m <;> rfl

end

/-! ## What the counters have been told -/

section

variable {κ ι Tid : Type*} [DecidableEq κ] (S : Setup κ ι)

/-- A counter of this scope counts the queue. -/
def Setup.covers (q : κ) : Scope κ → Bool
  | .queue q' => q = q'
  | .band p | .bandStats p => S.priority q = p
  | .shard | .registry => true

theorem mem_propagated {q : κ} {c : Counter κ} : c ∈ S.propagated q ↔ S.covers q c.scope = true := by
  obtain ⟨scope, m⟩ := c
  cases scope <;> cases m <;> simp [Setup.propagated, Setup.covers, eq_comm]

omit [DecidableEq κ] in
theorem nodup_propagated (q : κ) : (S.propagated q).Nodup := by
  simp [Setup.propagated]

/-- The queue whose mutex a goroutine holds. -/
def Pc.holds : Pc κ ι → Option κ
  | .locked q _ | .reporting q _ _ => some q
  | _ => none

/-- The queue a goroutine refers to. -/
def Pc.target : Pc κ ι → Option κ
  | .stats q _ _ _ | .admitted q _ | .locked q _ | .reporting q _ _ => some q
  | .idle => none

/-- What a goroutine still has to report to a counter. -/
def Pc.lag (pc : Pc κ ι) (c : Counter κ) : Int :=
  match pc with
  | .reporting _ ch todo => if c ∈ todo then ch.signed S c.measure else 0
  | _ => 0

/-- What the operation in progress on a queue has pending. -/
def State.pending (s : State κ ι Tid) (f : Pc κ ι → Int) (q : κ) : Int :=
  match s.mu q with
  | some t => f (s.pc t)
  | none => 0

/-- What a counter has yet to be told of a queue. -/
def State.lag (s : State κ ι Tid) (q : κ) (c : Counter κ) : Int := s.pending (·.lag S c) q

/-- What a counter has to be told of a queue. -/
def State.held (s : State κ ι Tid) (q : κ) (c : Counter κ) : Int :=
  if S.covers q c.scope then S.amount c.measure (s.world.queue q).items else 0

/-- What a counter has been told of a queue. -/
def State.told (s : State κ ι Tid) (q : κ) (c : Counter κ) : Int := s.held S q c - s.lag S q c

/-- A goroutine's queue exists; what it still reports is the rest of a report, and the
item it adds is there. -/
structure PcOk (created : Finset κ) (world : World κ ι) (pc : Pc κ ι) : Prop where
  target : ∀ q, pc.target = some q → q ∈ created
  suffix : ∀ q ch todo, pc = .reporting q ch todo → todo <:+ S.propagated q
  added : ∀ q x todo, pc = .reporting q (.added x) todo → x ∈ (world.queue q).items

structure Invariant (s : State κ ι Tid) : Prop where
  world : Queue.Inv S.size s.world
  locks : ∀ t q, (s.pc t).holds = some q ↔ s.mu q = some t
  uncreated : ∀ q ∉ s.created, (s.world.queue q).items = []
  pcs : ∀ t, PcOk S s.created s.world (s.pc t)
  balanced : ∀ c, s.counter c = ((∑ q ∈ s.created, s.told S q c : Int) : BitVec 64)

variable {S} {s s' : State κ ι Tid} {t : Tid} {q : κ} {c : Counter κ} {pc : Pc κ ι}

omit [DecidableEq κ] in
theorem Pc.target_of_holds (h : pc.holds = some q) : pc.target = some q := by
  cases pc with
  | locked | reporting => exact h
  | _ => cases h

theorem Pc.lag_of_holds (h : pc.holds = none) : pc.lag S c = 0 := by
  cases pc with
  | reporting => cases h
  | _ => rfl

theorem Invariant.mu_ne (hs : Invariant S s) {r : Option κ} (hr : (s.pc t).holds = r) (hne : some q ≠ r) :
    s.mu q ≠ some t := fun h => hne (((hs.locks t q).mpr h).symm.trans hr)

/-- The goroutine in the critical section of a queue. -/
theorem Invariant.of_holds (hs : Invariant S s) (hholds : (s.pc t).holds = some q) :
    s.mu q = some t ∧ q ∈ s.created ∧ ∀ q' ≠ q, s.mu q' ≠ some t := by
  refine ⟨(hs.locks t q).mp hholds, (hs.pcs t).target q ?_, fun q' hne => hs.mu_ne hholds fun he => hne (Option.some.inj he)⟩
  cases hpc : s.pc t <;> simp_all [Pc.holds, Pc.target]

theorem sum_of_ne {f g : κ → Int} {A : Finset κ} (hq : q ∈ A) (h : ∀ q' ≠ q, f q' = g q') :
    ∑ q ∈ A, f q = ∑ q ∈ A, g q + (f q - g q) := by
  rw [← Finset.add_sum_erase A f hq, ← Finset.add_sum_erase A g hq,
    Finset.sum_congr rfl fun q' h' => h q' (Finset.ne_of_mem_erase h')]
  ring

variable [DecidableEq Tid]

section

variable {f : Pc κ ι → Int} {q' : κ}

omit [DecidableEq κ] in
theorem pending_goto (pc : Pc κ ι) :
    (s.goto t pc).pending f q = if s.mu q = some t then f pc else s.pending f q := by
  unfold State.pending State.goto
  dsimp only
  cases hmu : s.mu q with
  | none => rfl
  | some t' =>
    by_cases ht : t' = t
    · simp [ht]
    · simp [ht]

theorem pending_lock {op : Op ι} : (s.lock t q op).pending f q' =
    if q' = q ∨ s.mu q' = some t then f (.locked q op) else s.pending f q' := by
  unfold State.pending State.lock
  dsimp only
  by_cases hq : q' = q
  · simp [hq]
  · simp only [update_of_ne hq, hq, false_or]
    cases hmu : s.mu q' with
    | none => rfl
    | some t' =>
      by_cases ht : t' = t
      · simp [ht]
      · simp [ht]

theorem pending_unlock : (s.unlock t q).pending f q' =
    if q' = q then 0 else if s.mu q' = some t then f .idle else s.pending f q' := by
  unfold State.pending State.unlock
  dsimp only
  by_cases hq : q' = q
  · simp [hq]
  · simp only [update_of_ne hq, hq, if_false]
    cases hmu : s.mu q' with
    | none => rfl
    | some t' =>
      by_cases ht : t' = t
      · simp [ht]
      · simp [ht]

end

/-! ## Steps -/

omit [DecidableEq Tid] in
theorem Invariant.balanced_of_told (hs : Invariant S s) (hcreated : s'.created = s.created)
    (hcounter : s'.counter = s.counter) (htold : ∀ q c, s'.told S q c = s.told S q c) (c : Counter κ) :
    s'.counter c = ((∑ q ∈ s'.created, s'.told S q c : Int) : BitVec 64) := by
  rw [hcreated, hcounter, hs.balanced, Finset.sum_congr rfl fun q _ => htold q c]

omit [DecidableEq κ] in
theorem PcOk.idle (A : Finset κ) (w : World κ ι) : PcOk S A w .idle :=
  ⟨nofun, nofun, nofun⟩

omit [DecidableEq κ] in
theorem PcOk.of_target {A : Finset κ} {w : World κ ι} (hq : ∀ q, pc.target = some q → q ∈ A)
    (h : ∀ q ch todo, pc ≠ .reporting q ch todo) : PcOk S A w pc :=
  ⟨hq, fun _ _ _ he => absurd he (h _ _ _), fun _ _ _ he => absurd he (h _ _ _)⟩

theorem Invariant.goto (hs : Invariant S s) (hholds : pc.holds = (s.pc t).holds)
    (hok : PcOk S s.created s.world pc) (hlag : ∀ c, pc.lag S c = (s.pc t).lag S c) : Invariant S (s.goto t pc) := by
  refine ⟨hs.world, (forall_update_iff s.pc fun t pc => ∀ q, pc.holds = some q ↔ s.mu q = some t).mpr
      ⟨fun q => hholds ▸ hs.locks t q, fun t' _ => hs.locks t'⟩, hs.uncreated,
    (forall_update_iff s.pc fun _ pc => PcOk S s.created s.world pc).mpr ⟨hok, fun t' _ => hs.pcs t'⟩,
    hs.balanced_of_told rfl rfl fun q c => ?_⟩
  unfold State.told State.lag
  rw [pending_goto]
  split
  · rename_i hmu
    rw [hlag, State.pending, hmu]
    rfl
  · rfl

theorem Invariant.goto_free (hs : Invariant S s) (hholds : (s.pc t).holds = none)
    (hholds' : pc.holds = none) (htarget : ∀ q, pc.target = some q → q ∈ s.created) : Invariant S (s.goto t pc) := by
  refine hs.goto (hholds'.trans hholds.symm) (.of_target htarget fun q ch todo h => ?_) fun c => ?_
  · rw [h] at hholds'
    cases hholds'
  · rw [Pc.lag_of_holds hholds, Pc.lag_of_holds hholds']

theorem Invariant.lock (hs : Invariant S s) (hholds : (s.pc t).holds = none) (hmu : s.mu q = none)
    (hq : q ∈ s.created) (op : Op ι) : Invariant S (s.lock t q op) := by
  have hfree : ∀ q', s.mu q' ≠ some t := fun q' => hs.mu_ne hholds (by simp)
  refine ⟨hs.world, (forall_update_iff s.pc fun t' pc =>
      ∀ q', pc.holds = some q' ↔ update s.mu q (some t) q' = some t').mpr ⟨fun q' => ?_, fun t' ht q' => ?_⟩,
    hs.uncreated, (forall_update_iff s.pc fun _ pc => PcOk S s.created s.world pc).mpr
      ⟨.of_target (fun q' h => Option.some.inj h ▸ hq) (nofun), fun t' _ => hs.pcs t'⟩,
    hs.balanced_of_told rfl rfl fun q' c => ?_⟩
  · by_cases hqq : q' = q
    · simp [hqq, Pc.holds]
    · rw [update_of_ne hqq]
      exact ⟨fun h => absurd (Option.some.inj h).symm hqq, fun h => absurd h (hfree q')⟩
  · rw [hs.locks]
    by_cases hqq : q' = q
    · simp [hqq, hmu, ht.symm]
    · rw [update_of_ne hqq]
  · unfold State.told State.lag
    rw [pending_lock]
    split
    · rename_i h
      have hq' : q' = q := h.resolve_right (hfree q')
      rw [hq', State.pending, hmu]
      rfl
    · rfl

theorem Invariant.unlock (hs : Invariant S s) (hholds : (s.pc t).holds = some q)
    (hlag : ∀ c, (s.pc t).lag S c = 0) : Invariant S (s.unlock t q) := by
  have hmu : s.mu q = some t := (hs.locks t q).mp hholds
  have hfree : ∀ q' ≠ q, s.mu q' ≠ some t := fun q' hne => hs.mu_ne hholds fun he => hne (Option.some.inj he)
  refine ⟨hs.world, (forall_update_iff s.pc fun t' pc =>
      ∀ q', pc.holds = some q' ↔ update s.mu q none q' = some t').mpr ⟨fun q' => ?_, fun t' ht q' => ?_⟩,
    hs.uncreated, (forall_update_iff s.pc fun _ pc => PcOk S s.created s.world pc).mpr
      ⟨.idle _ _, fun t' _ => hs.pcs t'⟩,
    hs.balanced_of_told rfl rfl fun q' c => ?_⟩
  · by_cases hqq : q' = q
    · simp [hqq, Pc.holds]
    · rw [update_of_ne hqq]
      exact ⟨nofun, fun h => absurd h (hfree q' hqq)⟩
  · rw [hs.locks]
    by_cases hqq : q' = q
    · simp [hqq, hmu, ht.symm]
    · rw [update_of_ne hqq]
  · unfold State.told State.lag
    rw [pending_unlock]
    split
    · rename_i hq'
      rw [hq', State.pending, hmu]
      exact congrArg _ (hlag c).symm
    · rename_i hq'
      rw [if_neg (hfree q' hq')]
      rfl

omit [DecidableEq κ] in
theorem signed_change {op : Op ι} {r : Result ι} (hr : ∀ x, op = .add x → r = .done) (m : Measure) :
    ((change op r).elim 0 fun ch => ch.signed S m) = S.amount m (op.on q).given - S.amount m r.taken := by
  have hnil : S.amount m [] = 0 := rfl
  cases op with
  | add x =>
    rw [hr x rfl]
    simp [change, Change.signed, Op.on, Queue.Op.given, Result.taken, Setup.amount]
  | _ =>
    cases r with
    | items l => cases l <;> simp [change, Change.signed, Op.on, Queue.Op.given, Result.taken, hnil]
    | _ => simp [change, Change.signed, Op.on, Queue.Op.given, Result.taken, hnil]

theorem op_of_change {op : Op ι} {r : Result ι} {x : ι} (h : change op r = some (.added x)) : op = .add x := by
  cases op with
  | add y =>
    rw [change, Option.some.injEq, Change.added.injEq] at h
    rw [h]
  | _ => cases r with
    | items l => cases l <;> cases h
    | _ => cases h

variable [DecidableEq ι] {op : Op ι} {w : World κ ι} {r : Result ι}

omit [DecidableEq Tid] in
theorem Invariant.amount_exec (hs : Invariant S s) (hfresh : Queue.Fresh s.world (op.on q))
    (hexec : s.world.exec S.less S.size (op.on q) = (w, r)) (m : Measure) :
    S.amount m (w.queue q).items =
      S.amount m (s.world.queue q).items + (change op r).elim 0 fun ch => ch.signed S m := by
  have hq : (op.on q).queue = some q := by cases op <;> rfl
  have hconserve : (((s.world.exec S.less S.size (op.on q)).1.queue q).items : Multiset ι) + _ = _ :=
    Queue.exec_conserves hs.world hfresh hq
  rw [hexec] at hconserve
  have hr : ∀ x, op = .add x → r = .done := by
    rintro x rfl
    have hdone : (s.world.exec S.less S.size (.add q x)).2 = .done := Queue.exec_add_done q x
    rw [← hdone, show s.world.exec S.less S.size (.add q x) = (w, r) from hexec]
  have hsum : S.amount m (w.queue q).items + S.amount m r.taken =
      S.amount m (s.world.queue q).items + S.amount m (op.on q).given := amount_add hconserve
  rw [signed_change (q := q) hr]
  omega

omit [DecidableEq Tid] in
theorem Invariant.frame_exec (hs : Invariant S s) (hholds : (s.pc t).holds = some q)
    (hfresh : Queue.Fresh s.world (op.on q)) (hexec : s.world.exec S.less S.size (op.on q) = (w, r)) :
    Queue.Inv S.size w ∧ (∀ q' ≠ q, w.queue q' = s.world.queue q') ∧
      ∀ t' ≠ t, PcOk S s.created w (s.pc t') := by
  have hw : (s.world.exec S.less S.size (op.on q)).1 = w := by rw [hexec]
  have hother : ∀ q' ≠ q, w.queue q' = s.world.queue q' := fun q' hne => by
    rw [← hw]
    refine Queue.exec_queue_of_ne fun he => hne ?_
    have hq : (op.on q).queue = some q := by cases op <;> rfl
    exact Option.some.inj (he.symm.trans hq)
  refine ⟨hw ▸ Queue.Refines.inv (Queue.exec_refines hs.world hfresh), hother, fun t' ht => ?_⟩
  have hok := hs.pcs t'
  refine ⟨hok.target, hok.suffix, fun q' x todo hpc => ?_⟩
  have hne : q' ≠ q := by
    rintro rfl
    have h₁ := (hs.locks t q').mp hholds
    have h₂ := (hs.locks t' q').mp (by rw [hpc]; rfl)
    rw [h₁] at h₂
    exact ht (Option.some.inj h₂).symm
  rw [hother q' hne]
  exact hok.added q' x todo hpc

variable {ch : Change ι}

section

variable (hs : Invariant S s) (hpc : s.pc t = .locked q op) (hfresh : Queue.Fresh s.world (op.on q))
  (hexec : s.world.exec S.less S.size (op.on q) = (w, r))
include hs hpc hfresh hexec

theorem Invariant.exec (hch : change op r = some ch) :
    Invariant S ({ s with world := w }.goto t (.reporting q ch (S.propagated q))) := by
  have hholds : (s.pc t).holds = some q := by rw [hpc]; rfl
  obtain ⟨hmu, hq, hfree⟩ := hs.of_holds hholds
  obtain ⟨hw, hother, hpcs⟩ := hs.frame_exec hholds hfresh hexec
  have hamount := hs.amount_exec hfresh hexec
  rw [hch] at hamount
  have hok : PcOk S s.created w (.reporting q ch (S.propagated q)) := by
    refine ⟨fun q' h => Option.some.inj h ▸ hq, fun q' ch' todo h => ?_, fun q' x todo h => ?_⟩
    · cases h
      exact List.suffix_refl _
    · cases h
      obtain rfl := op_of_change hch
      have hmem : x ∈ ((s.world.exec S.less S.size (.add q x)).1.queue q).items := Queue.mem_exec_add hs.world hfresh
      rwa [show s.world.exec S.less S.size (.add q x) = (w, r) from hexec] at hmem
  refine ⟨hw, (forall_update_iff s.pc fun t pc => ∀ q, pc.holds = some q ↔ s.mu q = some t).mpr
      ⟨fun q' => (hs.locks t q').symm.trans (by rw [hpc]; rfl) |>.symm, fun t' _ => hs.locks t'⟩, fun q' hq' => ?_,
    (forall_update_iff s.pc fun _ pc => PcOk S s.created w pc).mpr ⟨hok, hpcs⟩,
    hs.balanced_of_told rfl rfl fun q' c => ?_⟩
  · have hne : q' ≠ q := fun he => hq' (he ▸ hq)
    exact (congrArg _ (hother q' hne)).trans (hs.uncreated q' hq')
  · unfold State.told State.lag
    rw [pending_goto]
    by_cases hqq : q' = q
    · subst hqq
      have hlag : s.pending (·.lag S c) q' = 0 := by simp [State.pending, hmu, hpc, Pc.lag]
      rw [if_pos hmu, hlag]
      simp only [State.held, State.goto, Pc.lag, hamount, Option.elim_some]
      by_cases hc : S.covers q' c.scope = true
      · rw [if_pos hc, if_pos hc, if_pos ((mem_propagated S).mpr hc)]
        ring
      · rw [if_neg hc, if_neg hc, if_neg fun h => hc ((mem_propagated S).mp h)]
    · rw [if_neg (hfree q' hqq)]
      simp only [State.held, State.goto, hother q' hqq]
      rfl

theorem Invariant.quiet (hch : change op r = none) : Invariant S ({ s with world := w }.unlock t q) := by
  have hholds : (s.pc t).holds = some q := by rw [hpc]; rfl
  have hq : q ∈ s.created := (hs.pcs t).target q (by rw [hpc]; rfl)
  obtain ⟨hw, hother, hpcs⟩ := hs.frame_exec hholds hfresh hexec
  have hamount := hs.amount_exec hfresh hexec
  rw [hch] at hamount
  have hmid : Invariant S { s with world := w } := by
    refine ⟨hw, hs.locks, fun q' hq' => ?_, fun t' => ?_, hs.balanced_of_told rfl rfl fun q' c => ?_⟩
    · have hne : q' ≠ q := fun he => hq' (he ▸ hq)
      exact (congrArg _ (hother q' hne)).trans (hs.uncreated q' hq')
    · by_cases ht : t' = t
      · subst ht
        show PcOk S s.created w (s.pc t')
        rw [hpc]
        exact .of_target (fun q' h => Option.some.inj h ▸ hq) nofun
      · exact hpcs t' ht
    · unfold State.told
      have hheld : ({ s with world := w } : State κ ι Tid).held S q' c = s.held S q' c := by
        unfold State.held
        by_cases hqq : q' = q
        · subst hqq
          simp [hamount]
        · simp [hother q' hqq]
      rw [hheld]
      rfl
  refine hmid.unlock hholds fun c => ?_
  show (s.pc t).lag S c = 0
  rw [hpc]
  rfl

end

omit [DecidableEq ι] in
theorem Invariant.report {todo : List (Counter κ)} (hs : Invariant S s) (hpc : s.pc t = .reporting q ch (c :: todo)) :
    Invariant S ((s.addTo c (ch.delta S.size c.measure)).goto t (.reporting q ch todo)) := by
  have hholds : (s.pc t).holds = some q := by rw [hpc]; rfl
  obtain ⟨hmu, hq, hfree⟩ := hs.of_holds hholds
  have hsuffix := (hs.pcs t).suffix q ch (c :: todo) hpc
  have hnew : c ∉ todo := (List.nodup_cons.mp ((nodup_propagated S q).sublist hsuffix.sublist)).1
  have hok : PcOk S s.created s.world (.reporting q ch todo) := by
    refine ⟨fun q' h => Option.some.inj h ▸ hq, fun q' ch' todo' h => ?_, fun q' x todo' h => ?_⟩
    · cases h
      exact (List.suffix_cons c todo).trans hsuffix
    · cases h
      exact (hs.pcs t).added q x (c :: todo) hpc
  refine ⟨hs.world, (forall_update_iff s.pc fun t pc => ∀ q, pc.holds = some q ↔ s.mu q = some t).mpr
      ⟨fun q' => (hs.locks t q').symm.trans (by rw [hpc]; rfl) |>.symm, fun t' _ => hs.locks t'⟩, hs.uncreated,
    (forall_update_iff s.pc fun _ pc => PcOk S s.created s.world pc).mpr ⟨hok, fun t' _ => hs.pcs t'⟩,
    fun c' => ?_⟩
  -- the counter is told of `q` what it has not been told before, the others nothing
  have htold : ∀ q', ((s.addTo c (ch.delta S.size c.measure)).goto t (.reporting q ch todo)).told S q' c' =
      s.told S q' c' + if q' = q ∧ c' = c then ch.signed S c.measure else 0 := fun q' => by
    unfold State.told State.lag
    rw [pending_goto]
    by_cases hqq : q' = q
    · subst hqq
      have hlag : s.pending (·.lag S c') q' = if c' ∈ c :: todo then ch.signed S c'.measure else 0 := by
        simp [State.pending, hmu, hpc, Pc.lag]
      rw [hlag, if_pos (show (s.addTo c _).mu q' = some t from hmu)]
      show s.held S q' c' - _ = _
      by_cases hcc : c' = c
      · subst hcc
        simp [Pc.lag, hnew]
      · simp [Pc.lag, hcc]
    · rw [if_neg (show (s.addTo c _).mu q' ≠ some t from hfree q' hqq), if_neg fun h => hqq h.1, add_zero]
      rfl
  have hsum : ∑ q' ∈ s.created, ((s.addTo c (ch.delta S.size c.measure)).goto t (.reporting q ch todo)).told S q' c' =
      ∑ q' ∈ s.created, s.told S q' c' + if c' = c then ch.signed S c.measure else 0 := by
    rw [Finset.sum_congr rfl fun q' _ => htold q', Finset.sum_add_distrib]
    congr 1
    by_cases hcc : c' = c
    · simp [hcc, hq]
    · simp [hcc]
  show update s.counter c _ c' = ((∑ q' ∈ s.created, _ : Int) : BitVec 64)
  rw [hsum, Int.cast_add, ← hs.balanced]
  by_cases hcc : c' = c
  · rw [hcc, Function.update_self, if_pos rfl, delta_eq]
  · rw [update_of_ne hcc, if_neg hcc, Int.cast_zero, add_zero]

omit [DecidableEq ι] [DecidableEq Tid] in
theorem Invariant.pending_uncreated (hs : Invariant S s) (hq : q ∉ s.created) (f : Pc κ ι → Int) :
    s.pending f q = 0 := by
  unfold State.pending
  split
  · rename_i t hmu
    exact absurd ((hs.pcs t).target q (Pc.target_of_holds ((hs.locks t q).mpr hmu))) hq
  · rfl

omit [DecidableEq ι] [DecidableEq Tid] in
theorem Invariant.create (hs : Invariant S s) (hq : q ∉ s.created) :
    Invariant S { s with created := insert q s.created, registered := insert q s.registered } := by
  refine ⟨hs.world, hs.locks, fun q' hq' => hs.uncreated q' fun h => hq' (Finset.mem_insert_of_mem h), fun t => ?_,
    fun c => ?_⟩
  · exact ⟨fun q' h => Finset.mem_insert_of_mem ((hs.pcs t).target q' h), (hs.pcs t).suffix, (hs.pcs t).added⟩
  · show s.counter c = ((∑ q' ∈ insert q s.created, s.told S q' c : Int) : BitVec 64)
    have hzero : s.told S q c = 0 := by
      unfold State.told State.held State.lag
      rw [hs.pending_uncreated hq, hs.uncreated q hq]
      simp [Setup.amount]
    rw [Finset.sum_insert hq, hzero, zero_add]
    exact hs.balanced c

/-- The item that a step adds, and the queue. -/
def adding (s : State κ ι Tid) : Act κ ι Tid → Option (κ × ι)
  | .next t =>
    match s.pc t with
    | .locked q (.add x) => some (q, x)
    | _ => none
  | _ => none

/-- An item is added only while it is in no queue. -/
def FreshAdd (s : State κ ι Tid) (a : Act κ ι Tid) : Prop :=
  ∀ e ∈ adding s a, ∀ q, e.2 ∉ (s.world.queue q).items

omit [DecidableEq κ] [DecidableEq ι] [DecidableEq Tid] in
theorem adding_locked {x : ι} (hpc : s.pc t = .locked q (.add x)) : adding s (.next t) = some (q, x) := by
  simp only [adding, hpc]

omit [DecidableEq κ] [DecidableEq ι] [DecidableEq Tid] in
theorem FreshAdd.locked (h : FreshAdd s (.next t)) (hpc : s.pc t = .locked q op) : Queue.Fresh s.world (op.on q) := by
  cases op with
  | add x => exact h (q, x) (adding_locked hpc)
  | _ => trivial

variable {a : Act κ ι Tid}

theorem Invariant.step (hs : Invariant S s) (hfresh : FreshAdd s a) (m : Moves S s a s')
    (hp : s'.panicked = false) : Invariant S s' := by
  cases m with
  | create hq => exact hs.create hq
  | delete | markAsDraining => exact ⟨hs.world, hs.locks, hs.uncreated, hs.pcs, hs.balanced⟩
  | call hpc hq hmu => exact hs.lock (by rw [hpc]; rfl) hmu hq _
  | enqueue hpc hq => exact hs.goto_free (by rw [hpc]; rfl) rfl fun q' h => Option.some.inj h ▸ hq
  | @read t q x c todo seen hpc | @accept t q x seen hpc =>
    exact hs.goto_free (by rw [hpc]; rfl) rfl fun q' h => (hs.pcs t).target q' (by rw [hpc]; exact h)
  | reject hpc => exact hs.goto_free (by rw [hpc]; rfl) rfl nofun
  | @lockAdd t q x hpc hmu =>
    exact hs.lock (by rw [hpc]; rfl) hmu ((hs.pcs t).target q (by rw [hpc]; rfl)) _
  | refuse hpc => exact hs.unlock (by rw [hpc]; rfl) fun c => by rw [hpc]; rfl
  | quiet hpc hexec hch => exact hs.quiet hpc (hfresh.locked hpc) hexec hch
  | exec hpc hexec hch => exact hs.exec hpc (hfresh.locked hpc) hexec hch
  | report hpc => exact hs.report hpc
  | panic => cases hp
  | done hpc => exact hs.unlock (by rw [hpc]; rfl) fun c => by rw [hpc]; simp [Pc.lag]

omit [DecidableEq ι] [DecidableEq Tid] in
theorem Invariant.new : Invariant S (State.new S : State κ ι Tid) := by
  have hitems : ∀ q, ((World.new S.kind : World κ ι).queue q).items = [] := fun q => by
    show ((S.kind q).new : Queue.QueueObj ι).items = []
    cases S.kind q <;> rfl
  refine ⟨.new S.kind, fun t q => ⟨nofun, nofun⟩, fun q _ => hitems q,
    fun t => .idle _ _, fun c => ?_⟩
  simp [State.new]

/-! ## The sums -/

/-- The queue that a step deletes. -/
def deleting : Act κ ι Tid → Option κ
  | .delete q => some q
  | _ => none

/-- A queue that holds an item is not deleted, and none is added to one that was. -/
def KeepsHomes (s : State κ ι Tid) (a : Act κ ι Tid) : Prop :=
  (∀ q ∈ deleting a, (s.world.queue q).items = []) ∧ ∀ e ∈ adding s a, e.1 ∈ s.registered

structure Homes (s : State κ ι Tid) : Prop where
  subset : s.registered ⊆ s.created
  empty : ∀ q ∉ s.registered, (s.world.queue q).items = []

omit [DecidableEq Tid] in
theorem Homes.exec (hh : Homes s) (hs : Invariant S s) (hpc : s.pc t = .locked q op) (hfresh : FreshAdd s (.next t))
    (hhomes : KeepsHomes s (.next t)) (hexec : s.world.exec S.less S.size (op.on q) = (w, r)) :
    ∀ q' ∉ s.registered, (w.queue q').items = [] := by
  intro q' hq'
  have hholds : (s.pc t).holds = some q := by rw [hpc]; rfl
  by_cases hqq : q' = q
  · subst hqq
    have hgiven : (op.on q').given = [] := by
      cases op with
      | add x => exact absurd (hhomes.2 (q', x) (adding_locked hpc)) hq'
      | _ => rfl
    have hq : (op.on q').queue = some q' := by cases op <;> rfl
    have hconserve : (((s.world.exec S.less S.size (op.on q')).1.queue q').items : Multiset ι) + _ = _ :=
      Queue.exec_conserves hs.world (hfresh.locked hpc) hq
    rw [hexec, hgiven, hh.empty q' hq', Multiset.coe_nil, add_zero, Multiset.coe_add, Multiset.coe_eq_zero] at hconserve
    exact (List.append_eq_nil_iff.mp hconserve).1
  · rw [(hs.frame_exec hholds (hfresh.locked hpc) hexec).2.1 q' hqq]
    exact hh.empty q' hq'

theorem Homes.step (hh : Homes s) (hs : Invariant S s) (hfresh : FreshAdd s a)
    (hhomes : KeepsHomes s a) (m : Moves S s a s') : Homes s' := by
  cases m with
  | create => exact ⟨Finset.insert_subset_insert _ hh.subset, fun q' hq' =>
      hh.empty q' fun h => hq' (Finset.mem_insert_of_mem h)⟩
  | @delete q =>
    refine ⟨(Finset.erase_subset _ _).trans hh.subset, fun q' hq' => ?_⟩
    by_cases hqq : q' = q
    · rw [hqq]
      exact hhomes.1 q rfl
    · exact hh.empty q' fun h => hq' (Finset.mem_erase.mpr ⟨hqq, h⟩)
  | quiet hpc hexec | exec hpc hexec => exact ⟨hh.subset, hh.exec hs hpc hfresh hhomes hexec⟩
  | _ => exact ⟨hh.subset, hh.empty⟩

/-- `Len` and `ByteSize` of a `SafeQueue`. -/
def backing (o : Queue.QueueObj ι) : Measure → BitVec 64
  | .len => o.len
  | .byteSize => o.byteSize

omit [DecidableEq ι] [DecidableEq κ] in
theorem cast_amount (hw : Queue.Inv S.size w) (q : κ) (m : Measure) :
    ((S.amount m (w.queue q).items : Int) : BitVec 64) = backing (w.queue q) m := by
  have hsum : ((S.amount m (w.queue q).items : Int) : BitVec 64) =
      ((w.queue q).items.map fun x => S.need x m).sum := by
    induction (w.queue q).items with
    | nil => simp [Setup.amount]
    | cons x l ih =>
      have hcons : S.amount m (x :: l) = S.weight m x + S.amount m l := List.sum_cons
      rw [hcons, Int.cast_add, cast_weight, ih, List.map_cons, List.sum_cons]
  rw [hsum]
  cases m with
  | len =>
    rw [backing, ← Queue.QueueObj.length_items]
    simp [Setup.need]
  | byteSize => exact (hw.rep q).byteSize.symm

/-- Every counter says what the `SafeQueue`s hold: a queue's own, a band's the sum
over its queues, and the totals the sums over any set of bands with all queues. -/
structure Consistent (S : Setup κ ι) (s : State κ ι Tid) : Prop where
  queue : ∀ q ∈ s.registered, ∀ m, s.counter ⟨.queue q, m⟩ = backing (s.world.queue q) m
  band : ∀ p m, s.counter ⟨.band p, m⟩ = ∑ q ∈ s.registered with S.priority q = p, s.counter ⟨.queue q, m⟩
  shard : ∀ bands : Finset Int, (∀ q ∈ s.registered, S.priority q ∈ bands) → ∀ m,
    s.counter ⟨.shard, m⟩ = ∑ p ∈ bands, s.counter ⟨.band p, m⟩
  bandStats : ∀ p m, s.counter ⟨.bandStats p, m⟩ = s.counter ⟨.band p, m⟩
  registry : ∀ bands : Finset Int, (∀ q ∈ s.registered, S.priority q ∈ bands) → ∀ m,
    s.counter ⟨.registry, m⟩ = ∑ p ∈ bands, s.counter ⟨.bandStats p, m⟩

omit [DecidableEq ι] [DecidableEq Tid] in
theorem Invariant.counter_eq (hs : Invariant S s) (hh : Homes s) (hquiet : ∀ q, s.mu q = none) (c : Counter κ) :
    s.counter c = ∑ q ∈ s.registered, if S.covers q c.scope then backing (s.world.queue q) c.measure else 0 := by
  have htold : ∀ q, ((s.told S q c : Int) : BitVec 64) =
      if S.covers q c.scope then backing (s.world.queue q) c.measure else 0 := fun q => by
    rw [← cast_amount hs.world, State.told, State.lag, State.pending, hquiet q, sub_zero, State.held]
    split
    · rfl
    · exact Int.cast_zero
  rw [hs.balanced, Int.cast_sum, Finset.sum_congr rfl fun q _ => htold q]
  refine (Finset.sum_subset hh.subset fun q _ hq => ?_).symm
  rw [← cast_amount hs.world, hh.empty q hq]
  simp [Setup.amount]

omit [DecidableEq ι] [DecidableEq Tid] in
theorem Invariant.consistent (hs : Invariant S s) (hh : Homes s) (hquiet : ∀ q, s.mu q = none) : Consistent S s := by
  have hc := hs.counter_eq hh hquiet
  have hqueue : ∀ q ∈ s.registered, ∀ m, s.counter ⟨.queue q, m⟩ = backing (s.world.queue q) m := fun q hq m => by
    rw [hc]
    simp only [Setup.covers, decide_eq_true_eq, Finset.sum_ite_eq', if_pos hq]
  have hband : ∀ p m, s.counter ⟨.band p, m⟩ = ∑ q ∈ s.registered with S.priority q = p, backing (s.world.queue q) m :=
    fun p m => by
      rw [hc, Finset.sum_filter]
      simp [Setup.covers]
  have hstats : ∀ p m, s.counter ⟨.bandStats p, m⟩ = s.counter ⟨.band p, m⟩ := fun p m => by
    rw [hc, hc]
    rfl
  have hfiber : ∀ bands : Finset Int, (∀ q ∈ s.registered, S.priority q ∈ bands) → ∀ m,
      ∑ q ∈ s.registered, backing (s.world.queue q) m = ∑ p ∈ bands, s.counter ⟨.band p, m⟩ := fun bands hb m => by
    rw [Finset.sum_congr rfl fun p _ => hband p m]
    exact (Finset.sum_fiberwise_of_maps_to hb _).symm
  refine ⟨hqueue, fun p m => ?_, fun bands hb m => ?_, hstats, fun bands hb m => ?_⟩
  · rw [hband]
    exact Finset.sum_congr rfl fun q hq => (hqueue q (Finset.mem_filter.mp hq).1 m).symm
  · rw [hc, ← hfiber bands hb m]
    simp [Setup.covers]
  · rw [hc, Finset.sum_congr rfl fun p _ => hstats p m, ← hfiber bands hb m]
    simp [Setup.covers]

/-! ## No counter is negative -/

/-- What an operation in progress has removed. -/
def Pc.leaving (S : Setup κ ι) (pc : Pc κ ι) (m : Measure) : Int :=
  match pc with
  | .reporting _ (.removed l) _ => S.amount m l
  | _ => 0

/-- What is in a queue or being removed from it. -/
def State.share (S : Setup κ ι) (s : State κ ι Tid) (m : Measure) (q : κ) : Int :=
  S.amount m (s.world.queue q).items + s.pending (·.leaving S m) q

def State.present (S : Setup κ ι) (s : State κ ι Tid) (m : Measure) : Int := ∑ q ∈ s.created, s.share S m q

/-- What is there, with the item that is added, fits in an `int64`. -/
def Fits (S : Setup κ ι) (s : State κ ι Tid) (a : Act κ ι Tid) : Prop :=
  ∀ e ∈ adding s a, ∀ m ∈ [Measure.len, .byteSize], s.present S m + S.weight m e.2 < 2 ^ 63

variable {m : Measure}

omit [DecidableEq κ] [DecidableEq ι] in
theorem Pc.leaving_nonneg (pc : Pc κ ι) : 0 ≤ pc.leaving S m := by
  unfold Pc.leaving
  split
  · exact amount_nonneg
  · exact Int.le_refl _

omit [DecidableEq κ] [DecidableEq ι] [DecidableEq Tid] in
theorem present_mono (hcreated : s'.created = s.created) (h : ∀ q, s'.share S m q ≤ s.share S m q) :
    s'.present S m ≤ s.present S m := by
  unfold State.present
  rw [hcreated]
  exact Finset.sum_le_sum fun q _ => h q

omit [DecidableEq κ] [DecidableEq ι] in
theorem present_goto (h : pc.leaving S m = (s.pc t).leaving S m) : (s.goto t pc).present S m ≤ s.present S m := by
  refine present_mono rfl fun q => ?_
  unfold State.share
  rw [pending_goto]
  split
  · rename_i hmu
    rw [h, State.pending, hmu]
    exact Int.le_refl _
  · exact Int.le_refl _

omit [DecidableEq ι] in
theorem Invariant.present_lock (hs : Invariant S s) (hholds : (s.pc t).holds = none) (hmu : s.mu q = none) :
    (s.lock t q op).present S m ≤ s.present S m := by
  refine present_mono rfl fun q' => ?_
  unfold State.share
  rw [pending_lock]
  split
  · rename_i h
    have hq' : q' = q := h.resolve_right (hs.mu_ne hholds (by simp))
    rw [hq', State.pending, hmu]
    exact Int.le_refl _
  · exact Int.le_refl _

omit [DecidableEq ι] in
theorem present_unlock : (s.unlock t q).present S m ≤ s.present S m := by
  refine present_mono rfl fun q' => ?_
  have hpending : 0 ≤ s.pending (·.leaving S m) q' := by
    unfold State.pending
    split
    · exact Pc.leaving_nonneg _
    · exact Int.le_refl _
  unfold State.share
  rw [pending_unlock]
  show S.amount m (s.world.queue q').items + _ ≤ _
  split
  · omega
  · split
    · show _ + (0 : Int) ≤ _
      omega
    · exact Int.le_refl _

section

variable (hs : Invariant S s) (hpc : s.pc t = .locked q op) (hfresh : Queue.Fresh s.world (op.on q))
  (hexec : s.world.exec S.less S.size (op.on q) = (w, r))
include hs hpc hfresh hexec

theorem Invariant.present_exec (hch : change op r = some ch) :
    ({ s with world := w }.goto t (.reporting q ch (S.propagated q))).present S m =
      s.present S m + match ch with
        | .added x => S.weight m x
        | .removed _ => 0 := by
  have hholds : (s.pc t).holds = some q := by rw [hpc]; rfl
  obtain ⟨hmu, hq, hfree⟩ := hs.of_holds hholds
  have hother := (hs.frame_exec hholds hfresh hexec).2.1
  have hamount := hs.amount_exec hfresh hexec m
  rw [hch] at hamount
  have hsum := sum_of_ne hq (f := fun q' =>
      ({ s with world := w }.goto t (.reporting q ch (S.propagated q))).share S m q') (g := s.share S m) fun q' hne => by
    simp only [State.share]
    rw [pending_goto, if_neg (show ({ s with world := w } : State κ ι Tid).mu q' ≠ some t from hfree q' hne)]
    simp only [State.goto, hother q' hne]
    rfl
  refine hsum.trans ?_
  have hbefore : s.share S m q = S.amount m (s.world.queue q).items := by
    simp [State.share, State.pending, hmu, hpc, Pc.leaving]
  have hafter : ({ s with world := w }.goto t (.reporting q ch (S.propagated q))).share S m q =
      S.amount m (w.queue q).items + (Pc.reporting q ch (S.propagated q)).leaving S m := by
    simp only [State.share]
    rw [pending_goto, if_pos (show ({ s with world := w } : State κ ι Tid).mu q = some t from hmu)]
    rfl
  rw [hbefore, hafter, hamount]
  unfold State.present
  cases ch with
  | added x | removed l =>
    simp only [Option.elim_some, Change.signed, Pc.leaving]
    ring

theorem Invariant.present_quiet (hch : change op r = none) : ({ s with world := w }.unlock t q).present S m ≤ s.present S m := by
  have hholds : (s.pc t).holds = some q := by rw [hpc]; rfl
  have hother := (hs.frame_exec hholds hfresh hexec).2.1
  have hamount := hs.amount_exec hfresh hexec m
  rw [hch, Option.elim_none, add_zero] at hamount
  refine Int.le_trans present_unlock (present_mono rfl fun q' => Int.le_of_eq ?_)
  show S.amount m (w.queue q').items + s.pending (·.leaving S m) q' = _
  by_cases hqq : q' = q
  · rw [hqq, hamount]
    rfl
  · rw [hother q' hqq]
    rfl

end

theorem Invariant.present_step (hs : Invariant S s) (hfresh : FreshAdd s a) (hfits : Fits S s a)
    (mv : Moves S s a s') (hp : s'.panicked = false) (h : s.present S m < 2 ^ 63) : s'.present S m < 2 ^ 63 := by
  cases mv with
  | @create q hq =>
    have hzero : s.share S m q = 0 := by
      unfold State.share
      rw [hs.pending_uncreated hq, hs.uncreated q hq]
      simp [Setup.amount]
    show ∑ q' ∈ insert q s.created, s.share S m q' < _
    rw [Finset.sum_insert hq, hzero, zero_add]
    exact h
  | delete | markAsDraining => exact h
  | call hpc hq hmu | lockAdd hpc hmu => exact Int.lt_of_le_of_lt (hs.present_lock (by rw [hpc]; rfl) hmu) h
  | enqueue hpc | read hpc | accept hpc | reject hpc =>
    exact Int.lt_of_le_of_lt (present_goto (by rw [hpc]; rfl)) h
  | refuse | done => exact Int.lt_of_le_of_lt present_unlock h
  | panic => cases hp
  | quiet hpc hexec hch => exact Int.lt_of_le_of_lt (hs.present_quiet hpc (hfresh.locked hpc) hexec hch) h
  | @exec t q op w r ch hpc hexec hch =>
    rw [hs.present_exec hpc (hfresh.locked hpc) hexec hch]
    cases ch with
    | added x =>
      obtain rfl := op_of_change hch
      exact hfits (q, x) (adding_locked hpc) m (by cases m <;> simp)
    | removed l => simpa using h
  | @report t q ch c todo hpc =>
    have hsame : (Pc.reporting q ch todo).leaving S m = (s.pc t).leaving S m := by
      rw [hpc]
      cases ch <;> rfl
    exact Int.lt_of_le_of_lt (present_goto (s := s.addTo c _) hsame) h

omit [DecidableEq ι] [DecidableEq Tid] in
theorem Invariant.told_bounds (hs : Invariant S s) (q : κ) (c : Counter κ) :
    0 ≤ s.told S q c ∧ s.told S q c ≤ s.share S c.measure q := by
  have hheld : 0 ≤ S.amount c.measure (s.world.queue q).items := amount_nonneg
  unfold State.told State.lag State.held State.share State.pending
  cases hmu : s.mu q with
  | none =>
    dsimp only
    split <;> omega
  | some t =>
    have hholds := (hs.locks t q).mpr hmu
    have hleaving : 0 ≤ (s.pc t).leaving S c.measure := Pc.leaving_nonneg _
    dsimp only
    cases hpc : s.pc t with
    | reporting q' ch todo =>
      rw [hpc] at hholds hleaving
      cases hholds
      by_cases hc : c ∈ todo
      · have hcovers := (mem_propagated S).mp ((hs.pcs t).suffix q ch todo hpc |>.subset hc)
        rw [if_pos hcovers]
        simp only [Pc.lag, if_pos hc]
        cases ch with
        | added x =>
          have hx : S.weight c.measure x ≤ _ := weight_le_amount ((hs.pcs t).added q x todo hpc)
          have hw : 0 ≤ S.weight c.measure x := weight_nonneg
          simp only [Change.signed, Pc.leaving]
          omega
        | removed l =>
          have hl : 0 ≤ S.amount c.measure l := amount_nonneg
          simp only [Change.signed, Pc.leaving]
          omega
      · simp only [Pc.lag, if_neg hc]
        split <;> omega
    | _ =>
      simp only [Pc.lag, Pc.leaving]
      split <;> omega

omit [DecidableEq ι] [DecidableEq Tid] in
theorem Invariant.toNat_counter (hs : Invariant S s) (hfits : ∀ m, s.present S m < 2 ^ 63) (c : Counter κ) :
    ((s.counter c).toNat : Int) = ∑ q ∈ s.created, s.told S q c ∧ (s.counter c).msb = false := by
  have hnonneg : 0 ≤ ∑ q ∈ s.created, s.told S q c := Finset.sum_nonneg fun q _ => (hs.told_bounds q c).1
  have hle : ∑ q ∈ s.created, s.told S q c ≤ s.present S c.measure :=
    Finset.sum_le_sum fun q _ => (hs.told_bounds q c).2
  have hlt := hfits c.measure
  obtain ⟨n, hn⟩ := Int.eq_ofNat_of_zero_le hnonneg
  have hcast : s.counter c = BitVec.ofNat 64 n := by
    rw [hs.balanced, hn]
    exact Int.cast_natCast n
  have hn' : n < 2 ^ 63 := by omega
  rw [hcast, hn]
  refine ⟨?_, ?_⟩
  · rw [BitVec.toNat_ofNat, Nat.mod_eq_of_lt (by omega)]
  · rw [BitVec.msb_eq_decide, BitVec.toNat_ofNat, Nat.mod_eq_of_lt (by omega)]
    simpa using hn'

/-! ## Runs -/

theorem reaches_invariant (h : Reaches (step S) FreshAdd (State.new S) s) (hp : s.panicked = false) :
    Invariant S s := by
  refine h.invariant (fun s => s.panicked = false → Invariant S s) (fun _ => .new) (fun s a s' hs hok hstep hp => ?_) hp
  obtain ⟨hp', m⟩ := step_moves S hstep
  exact (hs hp').step hok m hp

theorem reaches_homes (h : Reaches (step S) (fun s a => FreshAdd s a ∧ KeepsHomes s a) (State.new S) s) :
    Homes s := by
  have hinv : ∀ s : State κ ι Tid, Reaches (step S) (fun s a => FreshAdd s a ∧ KeepsHomes s a) (State.new S) s →
      s.panicked = false → Invariant S s := fun s h =>
    reaches_invariant (h.mono (fun _ => True) (fun _ _ => trivial) fun _ _ _ h => h.1)
  induction h with
  | init =>
    have hnew : Invariant S (State.new S : State κ ι Tid) := .new
    exact ⟨Finset.Subset.refl _, fun q _ => hnew.uncreated q (Finset.notMem_empty q)⟩
  | next hr hok hstep ih =>
    obtain ⟨hp, m⟩ := step_moves S hstep
    exact ih.step (hinv _ hr hp) hok.1 hok.2 m

theorem reaches_fits (h : Reaches (step S) (fun s a => FreshAdd s a ∧ Fits S s a) (State.new S) s) :
    s.panicked = false ∧ Invariant S s ∧ ∀ m, s.present S m < 2 ^ 63 := by
  refine h.invariant (fun s => s.panicked = false ∧ Invariant S s ∧ ∀ m, s.present S m < 2 ^ 63)
    ⟨rfl, .new, fun m => ?_⟩ fun s a s' ⟨hp, hs, hpresent⟩ hok hstep => ?_
  · simp [State.present, State.new]
  · obtain ⟨-, mv⟩ := step_moves S hstep
    have hp' : s'.panicked = false := by
      cases mv with
      | @panic t q ch todo hpc hneg =>
        -- the add is one of the report's, after which the counter is what it has been told
        have hpresent' := fun m => hs.present_step hok.1 hok.2 (.report hpc) hp (hpresent m)
        have hmsb := ((hs.report hpc).toNat_counter hpresent' ⟨.queue q, .len⟩).2
        exact absurd (hmsb.symm.trans hneg) Bool.false_ne_true
      | _ => exact hp
    exact ⟨hp', hs.step hok.1 mv hp', fun m => hs.present_step hok.1 hok.2 mv hp' (hpresent m)⟩

/-- **The statistics are conserved.** In every run in which no queue that holds
an item is deleted, whenever no operation is in progress every counter is the
sum it stands for. And as long as what is held and being removed fits in an
`int64`, no counter is ever negative, in the middle of operations or not, and
no operation panics. -/
theorem statistics_conserved (S : Setup κ ι) (s : State κ ι Tid) :
    (Reaches (step S) (fun s a => FreshAdd s a ∧ KeepsHomes s a) (State.new S) s → s.panicked = false →
      (∀ q, s.mu q = none) → Consistent S s) ∧
    (Reaches (step S) (fun s a => FreshAdd s a ∧ Fits S s a) (State.new S) s →
      s.panicked = false ∧ ∀ c, 0 ≤ (s.counter c).toInt) := by
  refine ⟨fun h hp hquiet => ?_, fun h => ?_⟩
  · have hs := reaches_invariant (h.mono (fun _ => True) (fun _ _ => trivial) fun _ _ _ h => h.1) hp
    exact hs.consistent (reaches_homes h) hquiet
  · obtain ⟨hp, hs, hpresent⟩ := reaches_fits h
    refine ⟨hp, fun c => ?_⟩
    rw [BitVec.toInt_eq_msb_cond, (hs.toNat_counter hpresent c).2]
    simp

instance [Fintype κ] (s : State κ ι Tid) (a : Act κ ι Tid) : Decidable (FreshAdd s a) :=
  inferInstanceAs (Decidable (∀ e ∈ adding s a, ∀ q, e.2 ∉ (s.world.queue q).items))

instance (s : State κ ι Tid) (a : Act κ ι Tid) : Decidable (KeepsHomes s a) :=
  inferInstanceAs (Decidable ((∀ q ∈ deleting a, (s.world.queue q).items = []) ∧ ∀ e ∈ adding s a, e.1 ∈ s.registered))

instance (S : Setup κ ι) (s : State κ ι Tid) (a : Act κ ι Tid) : Decidable (Fits S s a) :=
  inferInstanceAs (Decidable (∀ e ∈ adding s a, ∀ m ∈ [Measure.len, .byteSize], s.present S m + S.weight m e.2 < 2 ^ 63))

end

/-- Two flows of different priorities, with limits of 10 bytes for the shard and two
requests for each band. -/
def twoFlows : Setup Bool Nat where
  priority q := if q then 1 else 0
  kind := Queue.twoQueues
  less := Queue.byNumber
  size x := BitVec.ofNat 64 x
  maxBytes := 10
  maxRequests := 0
  bandMaxBytes _ := 0
  bandMaxRequests _ := 2

/-- The steps of an operation after its call: the `SafeQueue`, ten adds and the
return. -/
def finish (t : Bool) : List (Act Bool Nat Bool) := List.replicate 12 (.next t)

/-- Two goroutines add to the two queues at once; then one queue is cleaned
up and deleted. -/
def busy : List (Act Bool Nat Bool) :=
  [.create false, .create true, .call false false (.add 4), .call true true (.add 3), .next false, .next true,
    .next true] ++ List.replicate 11 (.next false) ++ List.replicate 10 (.next true) ++
    [.call true false (.cleanup (· == 4))] ++ finish true ++ [.delete false]

theorem statistics_conserved_busy : ∃ s : State Bool Nat Bool,
    Reaches (step twoFlows) (fun s a => FreshAdd s a ∧ KeepsHomes s a) (State.new twoFlows) s ∧
      s.counter ⟨.shard, .byteSize⟩ = 3 ∧ Consistent twoFlows s ∧ ∀ c, 0 ≤ (s.counter c).toInt := by
  obtain ⟨s, hs, hp⟩ := exists_of_runIf (step twoFlows)
    (fun s a => (FreshAdd s a ∧ KeepsHomes s a) ∧ Fits twoFlows s a) (State.new twoFlows) busy
    (fun s => s.panicked = false ∧ (∀ q, s.mu q = none) ∧ s.counter ⟨.shard, .byteSize⟩ = 3) (by decide +kernel)
  have h₁ : Reaches (step twoFlows) (fun s a => FreshAdd s a ∧ KeepsHomes s a) (State.new twoFlows) s :=
    hs.mono (fun _ => True) (fun _ _ => trivial) fun _ _ _ h => h.1
  have h₂ : Reaches (step twoFlows) (fun s a => FreshAdd s a ∧ Fits twoFlows s a) (State.new twoFlows) s :=
    hs.mono (fun _ => True) (fun _ _ => trivial) fun _ _ _ h => ⟨h.1.1, h.2⟩
  exact ⟨s, h₁, hp.2.2, (statistics_conserved twoFlows s).1 h₁ hp.1 hp.2.1, ((statistics_conserved twoFlows s).2 h₂).2⟩

/-- `Add` has the queue and its mutex, the queue is deleted while it is empty, and `Add`
goes on. -/
def outlived : List (Act Bool Nat Bool) := [.create true, .call true true (.add 3), .delete true] ++ finish true

/-- No queue is deleted that holds an item, and still the shard counts a request that is
in no band. -/
theorem add_outlives_queue : ∃ s : State Bool Nat Bool,
    Reaches (step twoFlows) (fun s a => FreshAdd s a ∧ Fits twoFlows s a ∧ ∀ q ∈ deleting a, (s.world.queue q).items = [])
      (State.new twoFlows) s ∧ s.panicked = false ∧ (∀ q, s.mu q = none) ∧ ¬Consistent twoFlows s := by
  obtain ⟨s, hs, hpanicked, hquiet, hregistered, hshard⟩ := exists_of_runIf (step twoFlows)
    (fun s a => FreshAdd s a ∧ Fits twoFlows s a ∧ ∀ q ∈ deleting a, (s.world.queue q).items = [])
    (State.new twoFlows) outlived
    (fun s => s.panicked = false ∧ (∀ q, s.mu q = none) ∧ s.registered = ∅ ∧ s.counter ⟨.shard, .len⟩ = 1) (by decide +kernel)
  refine ⟨s, hs, hpanicked, hquiet, fun hc => ?_⟩
  -- without queues there are no bands, and the total is an empty sum
  have hsum := hc.shard ∅ (by simp [hregistered]) .len
  rw [hshard, Finset.sum_empty] at hsum
  exact absurd hsum (by decide)

end InferenceScheduler.Statistics
