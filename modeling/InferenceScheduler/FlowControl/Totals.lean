/-
The aggregated statistics. A managed queue reports every change to its band, its
shard and the registry; `Totals` says that each counter is the sum over the
queues it stands for. The reports keep it, and so do the registry's own sections
as long as every queued item is in a queue the shard still holds (`Homes`).
-/
import InferenceScheduler.FlowControl.System

namespace InferenceScheduler.FlowControl

open Function (update update_apply update_of_ne)
open Registry (Topology Shard PriorityBand)

/-! ## The load of a queue -/

section Load

variable {Tid : Type}

/-- The length and the byte size of a queue. -/
def load (c : Controller.State Tid) (q : Nat) : Int × Int := ((c.queues q).length, bytes c (c.queues q))

/-- The load of the queues, existing or not, whose flows meet `P`. -/
def held (t : Topology) (c : Controller.State Tid) (P : FlowKey → Prop) [DecidablePred P] : Int × Int :=
  ∑ q ∈ Finset.range t.nextQueue, if P (t.queueKey q) then load c q else 0

/-- Every counter is the load of the queues it stands for. -/
structure Totals (t : Topology) (c : Controller.State Tid) : Prop where
  registry : (t.totalLen, t.totalByteSize) = held t c fun _ => True
  shard : (t.shard.totalLen, t.shard.totalByteSize) = held t c fun _ => True
  band : ∀ {p band}, t.shard.priorityBands p = some band → (band.len, band.byteSize) = held t c (·.priority = p)
  stats : ∀ {p st}, t.perPriorityBandStats p = some st → (st.len, st.byteSize) = held t c (·.priority = p)

/-- The load of the queues the shard holds whose flows meet `P`. -/
def existing (t : Topology) (c : Controller.State Tid) (P : FlowKey → Prop) [DecidablePred P] : Int × Int :=
  ∑ q ∈ Finset.range t.nextQueue, if registered t q ∧ P (t.queueKey q) then load c q else 0

/-- Every counter is the load of the existing queues it stands for. -/
structure ExactTotals (t : Topology) (c : Controller.State Tid) : Prop where
  registry : (t.totalLen, t.totalByteSize) = existing t c fun _ => True
  shard : (t.shard.totalLen, t.shard.totalByteSize) = existing t c fun _ => True
  band : ∀ {p band}, t.shard.priorityBands p = some band →
    (band.len, band.byteSize) = existing t c (·.priority = p)
  stats : ∀ {p st}, t.perPriorityBandStats p = some st → (st.len, st.byteSize) = existing t c (·.priority = p)

variable {t t' : Topology} {c c' : Controller.State Tid} {P : FlowKey → Prop} [DecidablePred P] {p : Int}
  {key : FlowKey} {q : Nat}

theorem load_eq_zero (h : c.queues q = []) : load c q = 0 := by
  simp [load, h, bytes]

theorem Homes.held_eq_zero (h : Homes t c) (ht : t.Agrees) (hp : t.shard.priorityBands p = none) :
    held t c (·.priority = p) = 0 := by
  refine Finset.sum_eq_zero fun q _ => ?_
  split
  · rename_i hq
    refine load_eq_zero (List.eq_nil_iff_forall_not_mem.mpr fun i hi => ?_)
    have hhome := h.queue hi
    obtain ⟨-, hkey, -⟩ := (registered_iff ht).mp hhome
    obtain ⟨band, hb, -⟩ := hhome
    rw [← hkey, hq, hp] at hb
    cases hb
  · rfl

theorem Homes.held_eq_existing (h : Homes t c) (ht : t.Agrees) : held t c P = existing t c P := by
  refine Finset.sum_congr rfl fun q _ => ?_
  by_cases hr : registered t q = true
  · simp [hr]
  · have hempty : c.queues q = [] := List.eq_nil_iff_forall_not_mem.mpr fun i hi =>
      hr ((registered_iff ht).mp (h.queue hi)).1
    simp [load_eq_zero hempty]

theorem Totals.exact (h : Totals t c) (ht : t.Agrees) (hh : Homes t c) : ExactTotals t c where
  registry := by rw [← hh.held_eq_existing ht]; exact h.registry
  shard := by rw [← hh.held_eq_existing ht]; exact h.shard
  band hb := by rw [← hh.held_eq_existing ht]; exact h.band hb
  stats hst := by rw [← hh.held_eq_existing ht]; exact h.stats hst

/-! ## The registry's sections -/

theorem Totals.new (cfg : Registry.InitialConfig) (n : Nat) :
    Totals (Topology.new cfg) (Controller.State.new n : Controller.State Tid) := by
  refine ⟨rfl, ?_, fun {p} band hb => ?_, fun {p} st hst => ?_⟩
  · obtain ⟨hlen, hsize⟩ := Topology.foldl_initPriorityBand_totals (cfg.bands.map (·.partition 0 1))
      { config := cfg.toConfig.partition 0 1 }
    exact Prod.ext hlen hsize
  · rw [Topology.new_priorityBands] at hb
    obtain ⟨_, -, rfl⟩ := Option.map_eq_some_iff.mp hb
    rfl
  · obtain ⟨_, -, rfl⟩ := Option.map_eq_some_iff.mp hst
    rfl

theorem Totals.ensurePriorityBand (h : Totals t c) (ht : t.Agrees) (hh : Homes t c)
    (hp : t.config.priorityBands p = none) (hs : t.ensurePriorityBand p = some t') : Totals t' c := by
  rw [Topology.ensurePriorityBand_absent ht hp] at hs
  cases hs
  have hnone : t.shard.priorityBands p = none := by
    have hpres := ht.present p
    rw [hp] at hpres
    simpa using hpres
  have hzero := hh.held_eq_zero ht hnone
  refine ⟨h.registry, h.shard, fun {p'} band hb => ?_, fun {p'} st hst => ?_⟩
  · simp only [update_apply] at hb
    split at hb
    · subst p'
      cases hb
      exact hzero.symm
    · exact h.band hb
  · simp only [update_apply] at hst
    split at hst
    · subst p'
      cases hst
      exact hzero.symm
    · exact h.stats hst

theorem held_addQueue {band : PriorityBand} (ht : t.Agrees) (hh : Homes t c) :
    held (t.addQueue key band) c P = held t c P := by
  have hnew : load c t.nextQueue = 0 := by
    refine load_eq_zero (List.eq_nil_iff_forall_not_mem.mpr fun i hi => ?_)
    exact Nat.lt_irrefl _ ((registered_iff ht).mp (hh.queue hi)).2.2
  simp only [held, Topology.addQueue, Finset.sum_range_succ, hnew, ite_self, add_zero]
  refine Finset.sum_congr rfl fun q hq => ?_
  simp only [update_of_ne (Nat.ne_of_lt (Finset.mem_range.mp hq))]

theorem Totals.synchronizeFlow (h : Totals t c) (ht : t.Agrees) (hh : Homes t c)
    (hs : t.synchronizeFlow key = some t') : Totals t' c := by
  obtain ⟨band, hb, rfl⟩ := Option.map_eq_some_iff.mp hs
  split
  · exact h
  · refine ⟨?_, ?_, fun {p} band' hb' => ?_, fun hst => ?_⟩
    · rw [held_addQueue ht hh]
      exact h.registry
    · rw [held_addQueue ht hh]
      exact h.shard
    · rw [held_addQueue ht hh]
      simp only [Topology.addQueue, update_apply] at hb'
      split at hb'
      · subst p
        cases hb'
        exact (h.band hb :)
      · exact h.band hb'
    · rw [held_addQueue ht hh]
      exact h.stats hst

theorem Totals.cleanupFlowResources (h : Totals t c) (live : FlowKey → Bool) (keys : List FlowKey) :
    Totals (t.cleanupFlowResources live keys) c := by
  refine Topology.foldl_cleanup (Totals · c) live _ (fun t key _ h => ?_) keys h
  refine ⟨h.registry, h.shard, fun {p} band hb => ?_, h.stats⟩
  simp only [Shard.deleteFlow] at hb
  split at hb
  · obtain ⟨band', hb', rfl⟩ := Option.map_eq_some_iff.mp hb
    exact (h.band hb' :)
  · exact h.band hb

theorem Totals.cleanupPriorityBandResources (h : Totals t c) (live : Int → Bool) (ps : List Int) :
    Totals (t.cleanupPriorityBandResources live ps) c := by
  refine Topology.foldl_cleanup (Totals · c) live _ (fun t p _ h => ?_) ps h
  refine ⟨h.registry, h.shard, fun {p'} band hb => ?_, fun {p'} st hst => ?_⟩
  · simp only [Topology.deletePriorityBand, Shard.deletePriorityBand, update_apply] at hb
    split at hb
    · cases hb
    · exact h.band hb
  · simp only [Topology.deletePriorityBand, update_apply] at hst
    split at hst
    · cases hst
    · exact h.stats hst

theorem Totals.registry_step [DecidableEq Tid] {r r' : Registry.State Tid} {b : Registry.Act Tid}
    (h : Totals r.topo c) (hs : Registry.Sound r) (hh : Homes r.topo c) (hb : ∀ p l n, b ≠ .stats p l n)
    (m : Registry.Moves r b r') : Totals r'.topo c := by
  cases m with
  | start | refuse | finish => exact h
  | call m =>
    cases m with
    | ensureBand _ hp he => exact h.ensurePriorityBand hs.agrees hh hp he
    | syncOk _ _ he => exact h.synchronizeFlow hs.agrees hh he
    | _ => exact h
  | gc m =>
    cases m with
    | cleanFlows => exact h.cleanupFlowResources _ _
    | cleanBands => exact h.cleanupPriorityBandResources _ _
    | _ => exact h
  | stats => exact absurd rfl (hb _ _ _)

/-! ## The reports of the queues -/

/-- What a report adds to the load of a queue. -/
def change (r : Option (Nat × Int × Int)) (q : Nat) : Int × Int :=
  match r with
  | some (q', len, size) => if q = q' then (len, size) else 0
  | none => 0

theorem Totals.report {l n : Int} (h : Totals t c) (hq : q < t.nextQueue)
    (hload : ∀ q', load c' q' = load c q' + change (some (q, l, n)) q')
    (hs : t.propagateStatsDelta (t.queueKey q).priority l n = some t') : Totals t' c' := by
  have hheld : ∀ (P : FlowKey → Prop) [DecidablePred P],
      held t c' P = held t c P + if P (t.queueKey q) then (l, n) else 0 := fun P _ => by
    have hterm : ∀ q' ∈ Finset.range t.nextQueue, (if P (t.queueKey q') then load c' q' else 0) =
        (if P (t.queueKey q') then load c q' else 0) +
          if q' = q then (if P (t.queueKey q) then (l, n) else 0) else 0 := fun q' _ => by
      rw [hload, change]
      by_cases hq' : q' = q
      · subst hq'
        split <;> simp
      · simp [hq']
    rw [held, held, Finset.sum_congr rfl hterm, Finset.sum_add_distrib, Finset.sum_ite_eq',
      if_pos (Finset.mem_range.mpr hq)]
  obtain ⟨band, st, hband, hst, rfl⟩ := Topology.propagateStatsDelta_some hs
  refine ⟨?_, ?_, fun {p} band' hb => ?_, fun {p} st' hst' => ?_⟩
  · refine Eq.trans ?_ (hheld fun _ => True).symm
    rw [← h.registry]
    rfl
  · refine Eq.trans ?_ (hheld fun _ => True).symm
    rw [← h.shard]
    rfl
  · refine Eq.trans ?_ (hheld (·.priority = p)).symm
    simp only [update_apply] at hb
    split at hb
    · subst p
      cases hb
      rw [← h.band hband, if_pos rfl]
      rfl
    · rw [← h.band hb, if_neg (fun he => absurd he.symm ‹_›), add_zero]
  · refine Eq.trans ?_ (hheld (·.priority = p)).symm
    simp only [update_apply] at hst'
    split at hst'
    · subst p
      cases hst'
      rw [← h.stats hst, if_pos rfl]
      rfl
    · rw [← h.stats hst', if_neg (fun he => absurd he.symm ‹_›), add_zero]

theorem Totals.quiet (h : Totals t c) (hload : ∀ q, load c' q = load c q) : Totals t c' := by
  have hheld : ∀ (P : FlowKey → Prop) [DecidablePred P], held t c' P = held t c P := fun P _ => by
    simp only [held, hload]
  exact ⟨by rw [hheld]; exact h.registry, by rw [hheld]; exact h.shard,
    fun hb => by rw [hheld]; exact h.band hb, fun hst => by rw [hheld]; exact h.stats hst⟩

/-! ## What the managed queues report -/

theorem bytes_append (c : Controller.State Tid) (is js : List Nat) :
    bytes c (is ++ js) = bytes c is + bytes c js := by
  simp [bytes]

theorem bytes_erase {c : Controller.State Tid} {is : List Nat} {i : Nat} (hi : i ∈ is) :
    bytes c (is.erase i) = bytes c is - bytes c [i] := by
  have h := ((List.perm_cons_erase hi).map fun i => ((c.items i).byteSize : Int)).sum_eq
  simp only [List.map_cons, List.sum_cons] at h
  simp only [bytes, List.map_cons, List.map_nil, List.sum_cons, List.sum_nil, h]
  omega

theorem bytes_filter (c : Controller.State Tid) (is : List Nat) (p : Nat → Bool) :
    bytes c (is.filter fun i => !p i) = bytes c is - bytes c (is.filter p) := by
  induction is with
  | nil => rfl
  | cons i is ih =>
    simp only [bytes] at ih
    by_cases hi : p i = true <;> simp [bytes, hi] <;> omega

theorem length_filter (is : List Nat) (p : Nat → Bool) :
    ((is.filter fun i => !p i).length : Int) = is.length - (is.filter p).length := by
  have := List.length_eq_length_filter_add p (l := is)
  omega

variable [DecidableEq Tid]

theorem bytes_step {b : Controller.Act Tid} {is : List Nat} (m : Controller.Moves c b c')
    (h : ∀ i ∈ is, i < c.nextItem) : bytes c' is = bytes c is := by
  unfold bytes
  congr 1
  refine List.map_congr_left fun i hi => ?_
  rw [(m.keeps_request (h i hi)).2]

theorem load_step {b : Controller.Act Tid} (m : Controller.Moves c b c') (hal : Controller.Allocated c)
    (hb : b ≠ .run (.add true)) (q : Nat) : load c' q = load c q + change (queueChange c b) q := by
  have hlt : ∀ q, ∀ i ∈ c.queues q, i < c.nextItem := fun q i hi => hal.lt i (.queue hi)
  have hsame : c'.queues = c.queues → queueChange c b = none → load c' q = load c q + change (queueChange c b) q := by
    intro hq hn
    rw [hn, load, load, hq, bytes_step m (hlt q), change, add_zero]
  -- the queue `q'` becomes `is` and reports the difference
  have hset : ∀ {q' is l n}, c'.queues = update c.queues q' is → queueChange c b = some (q', l, n) →
      (∀ i ∈ is, i < c.nextItem) → (is.length : Int) = (c.queues q').length + l →
      bytes c is = bytes c (c.queues q') + n → load c' q = load c q + change (queueChange c b) q := by
    intro q' is l n hq hn his hlen hbytes
    rw [hn, load, load, hq, change]
    split
    · subst q'
      rw [Function.update_self, bytes_step m his, hlen, hbytes]
      rfl
    · rw [update_of_ne ‹_›, bytes_step m (hlt q), add_zero]
  cases m with
  | stop | cancel => exact hsame rfl rfl
  | call h =>
    cases h with
    | @candidates a r =>
      refine hsame ?_ rfl
      change (ite _ _ _ : Controller.State Tid).queues = _
      split
      · rfl
      · unfold Controller.State.startWorker
        split <;> rfl
    | _ => exact hsame rfl rfl
  | run h =>
    cases h with
    | @goto a pc pc' hpc hgo =>
      refine hsame rfl ?_
      cases hgo with
      | draining => exact absurd rfl hb
      | removeFailed hi => simp [queueChange, hpc, hi]
      | discard | proceed | cycleEnd | evicted | returned => simp [queueChange, hpc]
      | _ => rfl
    | receive => exact hsame rfl rfl
    | @add i q' hpc =>
      refine hset rfl (by rw [queueChange, hpc]) ?_ (by simp) (bytes_append ..)
      intro j hj
      rcases List.mem_append.mp hj with hj | hj
      · exact hlt q' j hj
      · obtain rfl := List.mem_singleton.mp hj
        exact hal.lt j (.run (by rw [hpc]; rfl))
    | @remove i q' hpc hi =>
      refine hset rfl (by rw [queueChange, hpc]; exact if_pos hi) (fun j hj => hlt q' j (List.mem_of_mem_erase hj)) ?_
        (by rw [bytes_erase hi]; rfl)
      have := List.length_erase_of_mem hi
      have := List.length_pos_of_mem hi
      omega
    | flag hpc | drain hpc | drained hpc => exact hsame rfl (by simp [queueChange, hpc])
  | pool h =>
    cases h with
    | @cleanup w q' removed hp hw =>
      subst hp
      by_cases hout : (c.queues q').filter (· ∈ removed) = []
      · refine hsame ?_ (by simp [queueChange, hw, hout])
        have hkeep : (c.queues q').filter (· ∉ removed) = c.queues q' := by
          simp only [List.filter_eq_nil_iff, decide_eq_true_eq] at hout
          exact List.filter_eq_self.mpr fun i hi => by simpa using hout i hi
        change update c.queues q' _ = _
        rw [hkeep, Function.update_eq_self]
      · have hreport : queueChange c (.pool .sweep (.process w removed)) = .some (q',
            -((c.queues q').filter (· ∈ removed)).length, -bytes c ((c.queues q').filter (· ∈ removed))) := by
          simp only [queueChange, hw, if_true, if_neg hout]
        refine hset rfl hreport (fun j hj => hlt q' j (List.mem_of_mem_filter hj)) ?_ ?_
        · simpa [sub_eq_add_neg] using length_filter (c.queues q') (· ∈ removed)
        · simpa [sub_eq_add_neg] using bytes_filter c (c.queues q') (· ∈ removed)
    | @drain w q' removed hp hw =>
      subst hp
      by_cases hout : c.queues q' = []
      · refine hsame ?_ (by simp [queueChange, hw, hout])
        change update c.queues q' _ = _
        rw [← hout, Function.update_eq_self]
      · have hreport : queueChange c (.pool .evict (.process w removed)) =
            .some (q', -(c.queues q').length, -bytes c (c.queues q')) := by
          simp only [queueChange, hw, reduceCtorEq, if_false, if_neg hout]
        refine hset rfl hreport nofun ?_ ?_
        · simp
        · simp [bytes]
    | goto _ hgo =>
      refine hsame rfl ?_
      rcases hgo with ⟨rfl, -⟩ | ⟨rfl, -⟩ | ⟨ps, rfl, -⟩ | ⟨rfl, -⟩ <;> rfl
    | band | take | queue | noQueue => exact hsame rfl rfl
  | @finalize g => cases g <;> exact hsame rfl rfl

omit [DecidableEq Tid] in
theorem queueChange_answer (s : State Tid) (a : Controller.Act Tid) :
    queueChange s.controller (s.answer a) = queueChange s.controller a := by
  cases a with
  | stop | cancel | finalize => rfl
  | call t a =>
    cases a with
    | candidates c => cases hpc : s.controller.calls t <;> simp [State.answer, hpc, queueChange]
    | _ => rfl
  | run a => cases a <;> rfl
  | pool p a =>
    cases a with
    | queue w answer => cases hw : (s.controller.pools p).workers w <;> simp [State.answer, hw, queueChange]
    | _ => rfl

omit [DecidableEq Tid] in
theorem answer_ne_draining (s : State Tid) (a : Controller.Act Tid) : s.answer a ≠ .run (.add true) := by
  cases a with
  | stop | cancel | finalize => simp [State.answer]
  | call t a =>
    cases a with
    | candidates c => cases hpc : s.controller.calls t <;> simp [State.answer, hpc]
    | _ => simp [State.answer]
  | run a => cases a <;> simp [State.answer]
  | pool p a =>
    cases a with
    | queue w answer => cases hw : (s.controller.pools p).workers w <;> simp [State.answer, hw]
    | _ => simp [State.answer]

omit [DecidableEq Tid] in
theorem Homes.of_queueChange {a : Controller.Act Tid} {l n : Int} (h : Homes t c)
    (hq : queueChange c a = some (q, l, n)) : ∃ key, t.HasQueue key q := by
  have hne : c.queues q ≠ [] → ∃ key, t.HasQueue key q := fun hne => by
    obtain ⟨i, hi⟩ := List.exists_mem_of_ne_nil _ hne
    exact ⟨_, h.queue hi⟩
  unfold queueChange at hq
  split at hq
  · split at hq
    · rename_i hrun
      cases hq
      exact ⟨_, h.target (by rw [hrun]; rfl)⟩
    · cases hq
  · split at hq
    · split at hq
      · rename_i hi
        cases hq
        exact hne (List.ne_nil_of_mem hi)
      · cases hq
    · cases hq
  · split at hq
    · obtain ⟨hout, hq⟩ := Option.ite_none_left_eq_some.mp hq
      cases hq
      refine hne fun he => hout ?_
      split <;> simp [he]
    · cases hq
  · cases hq

omit [DecidableEq Tid] in
theorem propagateStatsDelta_isSome {l n : Int} (ht : t.Agrees) (h : t.HasQueue key q) :
    (t.propagateStatsDelta (t.queueKey q).priority l n).isSome = true := by
  obtain ⟨-, rfl, -⟩ := (registered_iff ht).mp h
  obtain ⟨band, hb, -⟩ := h
  have hst := (ht.stats (t.queueKey q).priority).trans (ht.present (t.queueKey q).priority).symm
  rw [hb] at hst
  obtain ⟨st, hst⟩ := Option.isSome_iff_exists.mp hst
  simp [Topology.propagateStatsDelta, Shard.propagateStatsDelta, hb, hst]

end Load

end InferenceScheduler.FlowControl
