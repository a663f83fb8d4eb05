/-
The processor's capacity check. `hasCapacity` reads counters that lag behind the
queues. Only the processor adds: while it checks, the only operations being
reported are removals, so a counter never counts less than the queues hold, and
what it has read stays an upper bound until its `Add`.
-/
import InferenceScheduler.Statistics.Conservation

namespace InferenceScheduler.Statistics

open Queue (World Result)

section

variable {κ ι Tid : Type*}

/-- Where a goroutine is on its way to put an item into a queue. -/
def Pc.adds : Pc κ ι → Bool
  | .stats _ _ _ _ | .admitted _ _ | .locked _ (.add _) | .reporting _ (.added _) _ => true
  | _ => false

/-- Items are added by the goroutine `p` only, after its check. -/
def SingleWriter (p : Tid) : Act κ ι Tid → Prop
  | .call _ _ (.add _) => False
  | .enqueue t _ _ => t = p
  | _ => True

variable [DecidableEq κ] (S : Setup κ ι)

/-- What the queues of a counter hold. -/
def State.total (s : State κ ι Tid) (c : Counter κ) : Int := ∑ q ∈ s.created, s.held S q c

/-- A value the check has read is at least what the queues hold; past the check there
is room in every counter that `Add` will add to. -/
def PcChecked (total : Counter κ → Int) : Pc κ ι → Prop
  | .stats q _ todo seen => seen.map Prod.fst ++ todo = S.statsReads q ∧
      ∀ e ∈ seen, total e.1 ≤ e.2.toNat ∧ e.2.toNat < 2 ^ 63
  | .admitted q x | .locked q (.add x) => ∀ c ∈ S.statsReads q, S.capacity c ≠ 0 →
      S.weight c.measure x < 2 ^ 63 → total c + S.weight c.measure x ≤ (S.capacity c).toNat
  | _ => True

structure Capped (p : Tid) (s : State κ ι Tid) : Prop where
  writer : ∀ t, (s.pc t).adds = true → t = p
  capped : ∀ c, S.capacity c ≠ 0 → s.total S c ≤ (S.capacity c).toNat
  checked : ∀ t, PcChecked S (s.total S) (s.pc t)

variable {S} {s s' : State κ ι Tid} {t p : Tid} {q : κ} {c : Counter κ}

omit [DecidableEq κ] in
theorem PcChecked.mono {total total' : Counter κ → Int} {pc : Pc κ ι} (h : PcChecked S total pc)
    (hle : ∀ c, total' c ≤ total c) : PcChecked S total' pc := by
  unfold PcChecked at h ⊢
  split
  · exact ⟨h.1, fun e he => ⟨Int.le_trans (hle e.1) (h.2 e he).1, (h.2 e he).2⟩⟩
  · intro c hc hcap hlt
    have := h c hc hcap hlt
    have := hle c
    omega
  · intro c hc hcap hlt
    have := h c hc hcap hlt
    have := hle c
    omega
  · trivial

theorem mem_statsReads (hcap : S.capacity c ≠ 0) (hcovers : S.covers q c.scope = true) : c ∈ S.statsReads q := by
  obtain ⟨scope, m⟩ := c
  cases scope with
  | band b =>
    have hb : S.priority q = b := by simpa [Setup.covers] using hcovers
    cases m <;> simp [Setup.statsReads, hb]
  | shard => cases m <;> simp [Setup.statsReads]
  | _ => cases m <;> exact absurd rfl hcap

omit [DecidableEq κ] in
theorem room_of_hasCapacity {x : ι} {seen : List (Counter κ × BitVec 64)} {v : BitVec 64}
    (h : S.hasCapacity x seen = true) (hm : (c, v) ∈ seen) (hcap : S.capacity c ≠ 0) (hv : v.toNat < 2 ^ 63)
    (hx : S.weight c.measure x < 2 ^ 63) : (v.toNat : Int) + S.weight c.measure x ≤ (S.capacity c).toNat := by
  have hle := List.all_eq_true.mp h (c, v) hm
  have hpos : (0 : BitVec 64) < S.capacity c :=
    BitVec.lt_def.mpr (Nat.pos_of_ne_zero fun h => hcap (BitVec.eq_of_toNat_eq h))
  simp only [hpos, decide_true, Bool.true_and, Bool.not_eq_true', decide_eq_false_iff_not, BitVec.not_lt] at hle
  have hnat := BitVec.le_def.mp hle
  have hneed : S.weight c.measure x = (S.need x c.measure).toNat := rfl
  rw [BitVec.toNat_add, Nat.mod_eq_of_lt (by omega)] at hnat
  omega

theorem Invariant.total_le_counter (hs : Invariant S s) (hc : Capped S p s)
    (hfits : ∀ m, s.present S m < 2 ^ 63) (ht : (s.pc t).adds = true) (hrep : ∀ q ch todo, s.pc t ≠ .reporting q ch todo)
    (c : Counter κ) : s.total S c ≤ (s.counter c).toNat ∧ (s.counter c).toNat < 2 ^ 63 := by
  obtain ⟨hcounter, hmsb⟩ := hs.toNat_counter hfits c
  refine ⟨?_, ?_⟩
  · rw [hcounter]
    refine Finset.sum_le_sum fun q _ => ?_
    -- only removals are being reported
    have hlag : s.lag S q c ≤ 0 := by
      unfold State.lag State.pending
      split
      · rename_i t' hmu
        cases hpc : s.pc t' with
        | reporting q' ch todo =>
          cases ch with
          | added x =>
            have heq : t' = t := (hc.writer t' (by rw [hpc]; rfl)).trans (hc.writer t ht).symm
            exact absurd (heq ▸ hpc) (hrep _ _ _)
          | removed l =>
            have hl : 0 ≤ S.amount c.measure l := amount_nonneg
            simp only [Pc.lag, Change.signed]
            split <;> omega
        | _ => exact Int.le_refl _
      · exact Int.le_refl _
    unfold State.told
    omega
  · rw [BitVec.msb_eq_decide, decide_eq_false_iff_not] at hmsb
    omega

variable [DecidableEq ι] [DecidableEq Tid] {op : Op ι} {w : World κ ι} {r : Result ι}

omit [DecidableEq Tid] in
theorem Invariant.total_exec (hs : Invariant S s) (hpc : s.pc t = .locked q op)
    (hfresh : Queue.Fresh s.world (op.on q)) (hexec : s.world.exec S.less S.size (op.on q) = (w, r)) :
    ({ s with world := w } : State κ ι Tid).total S c = s.total S c +
      if S.covers q c.scope then (change op r).elim 0 fun ch => ch.signed S c.measure else 0 := by
  have hholds : (s.pc t).holds = some q := by rw [hpc]; rfl
  have hq : q ∈ s.created := (hs.pcs t).target q (by rw [hpc]; rfl)
  have hother := (hs.frame_exec hholds hfresh hexec).2.1
  refine (sum_of_ne hq (g := fun q => s.held S q c) fun q' hne => ?_).trans ?_
  · simp only [State.held, hother q' hne]
  · unfold State.total
    congr 1
    simp only [State.held, hs.amount_exec hfresh hexec]
    split
    · ring
    · rfl

variable {a : Act κ ι Tid}

theorem Invariant.total_step (hs : Invariant S s) (hfresh : FreshAdd s a) (m : Moves S s a s')
    (hadd : adding s a = none) (c : Counter κ) : s'.total S c ≤ s.total S c := by
  cases m with
  | @create q hq =>
    have hzero : s.held S q c = 0 := by
      unfold State.held
      rw [hs.uncreated q hq]
      simp [Setup.amount]
    show ∑ q' ∈ insert q s.created, s.held S q' c ≤ _
    rw [Finset.sum_insert hq, hzero, zero_add]
    exact Int.le_refl _
  | @quiet t q op w r hpc hexec hch =>
    have htotal := hs.total_exec (c := c) hpc (hfresh.locked hpc) hexec
    rw [hch, Option.elim_none, ite_self, add_zero] at htotal
    exact Int.le_of_eq htotal
  | @exec t q op w r ch hpc hexec hch =>
    have htotal := hs.total_exec (c := c) hpc (hfresh.locked hpc) hexec
    rw [hch, Option.elim_some] at htotal
    refine Int.le_trans (Int.le_of_eq htotal) ?_
    cases ch with
    | added x =>
      obtain rfl := op_of_change hch
      rw [adding_locked hpc] at hadd
      cases hadd
    | removed l =>
      have hl : 0 ≤ S.amount c.measure l := amount_nonneg
      simp only [Change.signed]
      split <;> omega
  | _ => exact Int.le_refl _

omit [DecidableEq ι] in
theorem Capped.of_pc {pc : Pc κ ι} (hc : Capped S p s) (hpc : s'.pc = Function.update s.pc t pc)
    (hle : ∀ c, s'.total S c ≤ s.total S c) (hwriter : pc.adds = true → t = p) (hchecked : PcChecked S (s'.total S) pc) :
    Capped S p s' := by
  refine ⟨?_, fun c hcap => Int.le_trans (hle c) (hc.capped c hcap), ?_⟩
  · rw [hpc]
    exact (Function.forall_update_iff s.pc fun t pc => pc.adds = true → t = p).mpr ⟨hwriter, fun t' _ => hc.writer t'⟩
  · rw [hpc]
    exact (Function.forall_update_iff s.pc fun _ pc => PcChecked S (s'.total S) pc).mpr
      ⟨hchecked, fun t' _ => (hc.checked t').mono hle⟩

omit [DecidableEq Tid] in
theorem Capped.room {x : ι} (hc : Capped S p s) (hs : Invariant S s) (hfits : Fits S s (.next t))
    (hpc : s.pc t = .locked q (.add x)) (hfresh : Queue.Fresh s.world (.add q x))
    (hexec : s.world.exec S.less S.size (.add q x) = (w, r)) (hcap : S.capacity c ≠ 0) :
    ({ s with world := w } : State κ ι Tid).total S c ≤ (S.capacity c).toNat := by
  have htotal : ({ s with world := w } : State κ ι Tid).total S c = _ := hs.total_exec hpc hfresh hexec
  rw [htotal]
  simp only [change, Option.elim_some, Change.signed]
  split
  · rename_i hcovers
    have hchecked := hc.checked t
    rw [hpc] at hchecked
    refine hchecked c (mem_statsReads hcap hcovers) hcap ?_
    have hpresent : 0 ≤ s.present S c.measure := Finset.sum_nonneg fun q _ => by
      obtain ⟨h₁, h₂⟩ := hs.told_bounds q ⟨.shard, c.measure⟩
      exact Int.le_trans h₁ h₂
    have hlt := hfits (q, x) (adding_locked hpc) c.measure (by cases c.measure <;> simp)
    dsimp only at hlt
    omega
  · rw [add_zero]
    exact hc.capped c hcap

theorem Capped.step (hc : Capped S p s) (hs : Invariant S s) (hpresent : ∀ m, s.present S m < 2 ^ 63)
    (hfresh : FreshAdd s a) (hfits : Fits S s a) (hsingle : SingleWriter p a) (m : Moves S s a s') :
    Capped S p s' := by
  have hle := hs.total_step hfresh m
  have hnone : ∀ {t : Tid}, (∀ q x, s.pc t ≠ .locked q (.add x)) → adding s (.next t) = none := fun h => by
    unfold adding
    dsimp only
    split
    · rename_i hpc
      exact absurd hpc (h _ _)
    · rfl
  cases m with
  | create | delete | markAsDraining =>
    exact ⟨hc.writer, fun c hcap => Int.le_trans (hle rfl c) (hc.capped c hcap), fun t => (hc.checked t).mono (hle rfl)⟩
  | @call t q op hpc =>
    refine hc.of_pc rfl (hle rfl) (fun h => ?_) ?_
    · cases op with
      | add x => exact absurd hsingle (by simp [SingleWriter])
      | _ => cases h
    · cases op with
      | add x => exact absurd hsingle (by simp [SingleWriter])
      | _ => trivial
  | enqueue hpc hq => exact hc.of_pc rfl (hle rfl) (fun _ => hsingle) ⟨rfl, nofun⟩
  | @read t q x c todo seen hpc =>
    have hle := hle (hnone fun _ _ h => by rw [hpc] at h; cases h)
    have hadds : (s.pc t).adds = true := by rw [hpc]; rfl
    have hold := hc.checked t
    rw [hpc] at hold
    refine hc.of_pc rfl hle (fun _ => hc.writer t hadds) ⟨by simpa using hold.1, fun e he => ?_⟩
    rcases List.mem_append.mp he with he | he
    · exact hold.2 e he
    · rw [List.mem_singleton.mp he]
      exact hs.total_le_counter hc hpresent hadds (fun _ _ _ h => by rw [hpc] at h; cases h) c
  | @accept t q x seen hpc hcapacity =>
    have hle := hle (hnone fun _ _ h => by rw [hpc] at h; cases h)
    have hadds : (s.pc t).adds = true := by rw [hpc]; rfl
    have hold := hc.checked t
    rw [hpc] at hold
    refine hc.of_pc rfl hle (fun _ => hc.writer t hadds) fun c hmem hcap hx => ?_
    rw [← hold.1, List.append_nil] at hmem
    obtain ⟨⟨c', v⟩, he, rfl⟩ := List.mem_map.mp hmem
    have hroom := room_of_hasCapacity hcapacity he hcap (hold.2 _ he).2 hx
    have hseen := (hold.2 _ he).1
    show s.total S c' + _ ≤ _
    dsimp only at hroom hseen hx ⊢
    omega
  | reject hpc | panic hpc | done hpc =>
    have hle := hle (hnone fun _ _ h => by rw [hpc] at h; cases h)
    exact hc.of_pc rfl hle (nofun) trivial
  | @lockAdd t q x hpc =>
    have hle := hle (hnone fun _ _ h => by rw [hpc] at h; cases h)
    have hold := hc.checked t
    rw [hpc] at hold
    exact hc.of_pc rfl hle (fun _ => hc.writer t (by rw [hpc]; rfl)) hold
  | refuse => exact hc.of_pc rfl (fun c => Int.le_refl _) (nofun) trivial
  | quiet hpc hexec hch =>
    have hle := hle (hnone fun _ _ h => by rw [hpc] at h; cases h; cases hch)
    exact hc.of_pc rfl hle (nofun) trivial
  | @exec t q op w r ch hpc hexec hch =>
    cases ch with
    | removed l =>
      have hle := hle (hnone fun _ _ h => by rw [hpc] at h; cases h; cases hch)
      exact hc.of_pc rfl hle (nofun) trivial
    | added x =>
      obtain rfl := op_of_change hch
      have hadds : (s.pc t).adds = true := by rw [hpc]; rfl
      refine ⟨(Function.forall_update_iff s.pc fun t pc => pc.adds = true → t = p).mpr
        ⟨fun _ => hc.writer t hadds, fun t' _ => hc.writer t'⟩,
        fun c hcap => hc.room hs hfits hpc (hfresh.locked hpc) hexec hcap,
        (Function.forall_update_iff s.pc fun _ pc => PcChecked S _ pc).mpr ⟨trivial, fun t' ht => ?_⟩⟩
      -- no other goroutine has checked anything
      have hother : ¬(s.pc t').adds = true := fun h => ht ((hc.writer t' h).trans (hc.writer t hadds).symm)
      cases hpc' : s.pc t' with
      | stats | admitted =>
        rw [hpc'] at hother
        exact absurd rfl hother
      | locked q' op' =>
        cases op' with
        | add x' =>
          rw [hpc'] at hother
          exact absurd rfl hother
        | _ => trivial
      | _ => trivial
  | @report t q ch c todo hpc =>
    have hle := hle (hnone fun _ _ h => by rw [hpc] at h; cases h)
    refine hc.of_pc rfl hle (fun h => hc.writer t ?_) trivial
    rw [hpc]
    cases ch with
    | added x => rfl
    | removed l => cases h

omit [DecidableEq ι] [DecidableEq Tid] in
theorem Capped.new : Capped S p (State.new S : State κ ι Tid) := by
  refine ⟨nofun, fun c _ => ?_, fun t => trivial⟩
  simp [State.total, State.new]

theorem registered_step (m : Moves S s a s') (h : s.registered ⊆ s.created) : s'.registered ⊆ s'.created := by
  cases m with
  | create => exact Finset.insert_subset_insert _ h
  | delete => exact (Finset.erase_subset _ _).trans h
  | _ => exact h

theorem reaches_capped (h : Reaches (step S) (fun s a => (FreshAdd s a ∧ Fits S s a) ∧ SingleWriter p a)
    (State.new S) s) : Capped S p s ∧ s.registered ⊆ s.created := by
  induction h with
  | init => exact ⟨.new, Finset.Subset.refl _⟩
  | next hr hok hstep ih =>
    obtain ⟨-, hs, hpresent⟩ := reaches_fits (hr.mono (fun _ => True) (fun _ _ => trivial) fun _ _ _ h => h.1)
    obtain ⟨-, m⟩ := step_moves S hstep
    exact ⟨ih.1.step hs hpresent hok.1.1 hok.1.2 hok.2 m, registered_step m ih.2⟩

/-- **Capacity is never exceeded.** For any limits, in every run in which only
one goroutine adds items, each after its check, while any others remove items,
and flows are created and deleted: what the queues of the shard, and of each
band, hold is within each limit there is (`capacity` is 0 for none, and for the
counters that have no limit). -/
theorem capacity_never_exceeded (p : Tid) (h : Reaches (step S)
      (fun s a => (FreshAdd s a ∧ Fits S s a) ∧ SingleWriter p a) (State.new S) s) (c : Counter κ)
    (hcap : S.capacity c ≠ 0) :
    ∑ q ∈ s.registered with S.covers q c.scope, S.amount c.measure (s.world.queue q).items ≤
      (S.capacity c).toNat := by
  obtain ⟨hc, hsub⟩ := reaches_capped h
  refine Int.le_trans ?_ (hc.capped c hcap)
  rw [Finset.sum_filter]
  refine Finset.sum_le_sum_of_subset_of_nonneg hsub fun q _ _ => ?_
  split
  · exact amount_nonneg
  · exact Int.le_refl _

instance (p : Tid) : ∀ a : Act κ ι Tid, Decidable (SingleWriter p a)
  | .call _ _ (.add _) => .isFalse id
  | .enqueue t _ _ => inferInstanceAs (Decidable (t = p))
  | .call _ _ (.remove _) => .isTrue trivial
  | .call _ _ (.cleanup _) => .isTrue trivial
  | .call _ _ .drain => .isTrue trivial
  | .create _ => .isTrue trivial
  | .delete _ => .isTrue trivial
  | .markAsDraining => .isTrue trivial
  | .next _ => .isTrue trivial

end

/-- The processor (`false`) enqueues an item: the four reads, the check, the
lock and the operation. -/
def enqueueItem (q : Bool) (x : Nat) : List (Act Bool Nat Bool) :=
  .enqueue false q x :: List.replicate 6 (.next false) ++ finish false

/-- While a sweep removes the first of two items, its bytes still count, and a third
item is refused. -/
def fillUp : List (Act Bool Nat Bool) :=
  [.create false, .create true] ++ enqueueItem false 4 ++ enqueueItem true 5 ++
    [.call true false (.cleanup (· == 4)), .next true] ++ .enqueue false false 6 :: List.replicate 5 (.next false) ++
    List.replicate 11 (.next true)

theorem capacity_never_exceeded_fillUp : ∃ s : State Bool Nat Bool,
    Reaches (step twoFlows) (fun s a => (FreshAdd s a ∧ Fits twoFlows s a) ∧ SingleWriter false a)
      (State.new twoFlows) s ∧ (s.world.queue true).items = [5] ∧ (s.world.queue false).items = [] ∧
      ∑ q ∈ s.registered with twoFlows.covers q .shard, twoFlows.amount .byteSize (s.world.queue q).items ≤ 10 := by
  obtain ⟨s, hs, hp⟩ := exists_of_runIf (step twoFlows)
    (fun s a => (FreshAdd s a ∧ Fits twoFlows s a) ∧ SingleWriter false a) (State.new twoFlows) fillUp
    (fun s => (s.world.queue true).items = [5] ∧ (s.world.queue false).items = []) (by decide +kernel)
  exact ⟨s, hs, hp.1, hp.2, capacity_never_exceeded false hs ⟨.shard, .byteSize⟩ (by decide)⟩

end InferenceScheduler.Statistics
