/-
The registry's and the shard's views of the priorities over sequences of the
sections that run under the registry lock, in any order and whatever the lease
maps hold.

`updateConfig` is taken here key by key, as its `Range` calls back; a missing
configuration is a panic. That it comes to `Shard.updateConfig`, which
changes all bands at once, rests on the views agreeing (`updateConfigOver_eq`).
-/
import InferenceScheduler.Lib.Run
import InferenceScheduler.Registry.Topology

namespace InferenceScheduler.Registry

open Function (update update_of_ne update_self)

/-! ## Sections -/

namespace Shard

variable (s : Shard)

/-- The callback of `updateConfig` for a band; `none` is a nil dereference. -/
def repartitionBand (newConfig : ShardConfig) (priority : Int) : Option Shard :=
  match s.priorityBands priority with
  | none => some s
  | some band =>
    (newConfig.priorityBands priority).map fun newBandConfig =>
      { s with priorityBands := update s.priorityBands priority (some { band with config := newBandConfig }) }

/-- `updateConfig`, with the keys in the order in which `Range` visits them. -/
def updateConfigOver (newConfig : ShardConfig) (visited : List Int) : Option Shard :=
  visited.foldlM (fun s p => s.repartitionBand newConfig p) { s with config := newConfig }

end Shard

/-- `contracts.PriorityBandStats`. -/
structure PriorityBandStats where
  priority : Int
  capacityBytes : Nat
  capacityRequests : Nat
  byteSize : Int
  len : Int

/-- `Stats` of the shard: the entry for a priority. -/
def Shard.stats (s : Shard) (priority : Int) : Option PriorityBandStats :=
  (s.priorityBands priority).map fun band =>
    { priority, capacityBytes := band.config.maxBytes, capacityRequests := band.config.maxRequests
      byteSize := band.byteSize, len := band.len }

namespace Topology

variable (t : Topology)

/-- `ensurePriorityBand`, with the keys in the order in which `updateConfig`
visits them. -/
def ensurePriorityBandOver (priority : Int) (visited : List Int) : Option Topology :=
  if (t.config.priorityBands priority).isSome then some t
  else
    let stats := if (t.perPriorityBandStats priority).isSome then t.perPriorityBandStats
      else update t.perPriorityBandStats priority (some {})
    ((t.shard.updateConfigOver ((t.grownConfig priority).partition 0 1) visited).bind
      (·.addPriorityBand priority)).map fun shard =>
        { t with config := t.grownConfig priority, perPriorityBandStats := stats, shard }

end Topology

/-- The sections, with what they find in the lease maps. -/
inductive LockSection
  | ensurePriorityBand (priority : Int) (visited : List Int)
  /-- `buildFlowComponents` and `synchronizeFlow`; `made` tells whether the
  queue could be built. -/
  | synchronizeFlow (key : FlowKey) (made : Bool)
  | cleanupFlowResources (live : FlowKey → Bool) (keys : List FlowKey)
  | cleanupPriorityBandResources (live : Int → Bool) (priorities : List Int)

namespace Topology

/-- A section is run; `none` is a panic. -/
def enter (t : Topology) : LockSection → Option Topology
  | .ensurePriorityBand priority visited => t.ensurePriorityBandOver priority visited
  | .synchronizeFlow key made =>
    match t.buildFlowComponents key made with
    | .error _ => some t
    | .ok _ => t.synchronizeFlow key
  | .cleanupFlowResources live keys => some (t.cleanupFlowResources live keys)
  | .cleanupPriorityBandResources live priorities => some (t.cleanupPriorityBandResources live priorities)

/-- `Range` visits the keys that are there. -/
def Visits (t : Topology) : LockSection → Prop
  | .ensurePriorityBand _ visited => ∀ p, p ∈ visited ↔ (t.shard.priorityBands p).isSome
  | _ => True

/-- The five collections name the same priorities, the levels in strictly
descending order. -/
structure SamePriorities (t : Topology) : Prop where
  stats : { p | (t.perPriorityBandStats p).isSome } = { p | (t.config.priorityBands p).isSome }
  shardConfig : { p | (t.shard.config.priorityBands p).isSome } = { p | (t.config.priorityBands p).isSome }
  bands : { p | (t.shard.priorityBands p).isSome } = { p | (t.config.priorityBands p).isSome }
  levels : { p | p ∈ t.shard.orderedPriorityLevels } = { p | (t.config.priorityBands p).isSome }
  descending : t.shard.orderedPriorityLevels.Pairwise (· > ·)
  nodup : t.shard.orderedPriorityLevels.Nodup

end Topology

/-! ## No look-up fails -/

section Lookups

variable {s s' : Shard} {newConfig : ShardConfig} {t t' : Topology} {priority p : Int} {visited : List Int}

/-- A band after the callback has seen it. -/
def Shard.repartitioned (s : Shard) (newConfig : ShardConfig) (p : Int) : Option PriorityBand :=
  (s.priorityBands p).map fun band => { band with config := (newConfig.priorityBands p).getD band.config }

theorem repartitionBand_eq (h : (s.priorityBands p).isSome → (newConfig.priorityBands p).isSome) :
    s.repartitionBand newConfig p =
      some { s with priorityBands := update s.priorityBands p (s.repartitioned newConfig p) } := by
  unfold Shard.repartitionBand Shard.repartitioned
  cases hb : s.priorityBands p with
  | none =>
    have hsame : update s.priorityBands p none = s.priorityBands := by
      rw [← hb, Function.update_eq_self]
    simp only [Option.map_none, hsame]
  | some band =>
    obtain ⟨c, hc⟩ := Option.isSome_iff_exists.mp (h (by rw [hb]; rfl))
    simp only [hc, Option.map_some, Option.getD_some]

/-- **Visiting every band that is there, each with a new configuration, changes
all of them.** -/
theorem updateConfigOver_eq (h : ∀ p, (s.priorityBands p).isSome → (newConfig.priorityBands p).isSome)
    (hv : ∀ p, (s.priorityBands p).isSome → p ∈ visited) :
    s.updateConfigOver newConfig visited = some (s.updateConfig newConfig) := by
  -- After some of the keys, exactly their bands have the new configuration.
  have hloop : ∀ (todo : List Int) (x : Shard), x.config = newConfig →
      (∀ p, x.priorityBands p = s.priorityBands p ∨ x.priorityBands p = s.repartitioned newConfig p) →
      (∀ p, p ∉ todo → x.priorityBands p = s.repartitioned newConfig p) →
      x.orderedPriorityLevels = s.orderedPriorityLevels → x.totalByteSize = s.totalByteSize →
      x.totalLen = s.totalLen →
      todo.foldlM (fun s p => s.repartitionBand newConfig p) x = some (s.updateConfig newConfig) := by
    intro todo
    induction todo with
    | nil =>
      intro x hc _ hdone ho hb hl
      obtain ⟨config, levels, bands, bytes, len⟩ := x
      have hbands : bands = s.repartitioned newConfig := funext fun p => hdone p (List.not_mem_nil)
      simp only at hc ho hb hl
      subst hc ho hb hl hbands
      rfl
    | cons p todo ih =>
      intro x hc hmid hdone ho hb hl
      have hsome : (x.priorityBands p).isSome → (newConfig.priorityBands p).isSome := by
        intro hx
        refine h p ?_
        rcases hmid p with he | he
        · rwa [he] at hx
        · rw [he] at hx
          simpa only [Shard.repartitioned, Option.isSome_map] using hx
      have hband : x.repartitioned newConfig p = s.repartitioned newConfig p := by
        rcases hmid p with he | he
        · simp only [Shard.repartitioned, he]
        · simp only [Shard.repartitioned, he, Option.map_map]
          refine congrArg (Option.map · _) (funext fun band => ?_)
          cases newConfig.priorityBands p <;> rfl
      rw [List.foldlM_cons, repartitionBand_eq hsome, hband]
      refine ih _ hc (fun q => ?_) (fun q hq => ?_) ho hb hl
      · by_cases hqp : q = p
        · subst hqp
          exact .inr (update_self ..)
        · simp only [update_of_ne hqp]
          exact hmid q
      · by_cases hqp : q = p
        · subst hqp
          exact update_self ..
        · simp only [update_of_ne hqp]
          refine hdone q fun hmem => ?_
          rcases List.mem_cons.mp hmem with rfl | hmem
          · exact hqp rfl
          · exact hq hmem
  refine hloop visited { s with config := newConfig } rfl (fun _ => .inl rfl) (fun p hp => ?_) rfl rfl rfl
  have hnone : s.priorityBands p = none := by
    cases hb : s.priorityBands p with
    | none => rfl
    | some band => exact absurd (hv p (by rw [hb]; rfl)) hp
  simp only [Shard.repartitioned, hnone, Option.map_none]

theorem ensurePriorityBandOver_eq (h : t.Agrees) (hv : ∀ p, p ∈ visited ↔ (t.shard.priorityBands p).isSome) :
    t.ensurePriorityBandOver priority visited = t.ensurePriorityBand priority := by
  have hlookup : ∀ p, (t.shard.priorityBands p).isSome →
      (((t.grownConfig priority).partition 0 1).priorityBands p).isSome := by
    intro p hp
    rw [partition_priorityBands, Topology.grownConfig]
    by_cases hpp : p = priority
    · subst hpp
      simp only [update_self, Option.isSome_some]
    · simp only [update_of_ne hpp]
      rw [← h.present p]
      exact hp
  unfold Topology.ensurePriorityBandOver Topology.ensurePriorityBand
  rw [updateConfigOver_eq hlookup fun p hp => (hv p).mpr hp]
  rfl

/-- **A section that starts with agreeing views ends, and leaves them agreeing.** -/
theorem Topology.Agrees.enter (h : t.Agrees) {l : LockSection} (hv : t.Visits l) :
    ∃ t', t.enter l = some t' ∧ t'.Agrees := by
  cases l with
  | ensurePriorityBand priority visited =>
    rw [Topology.enter, ensurePriorityBandOver_eq h hv]
    exact h.ensurePriorityBand
  | synchronizeFlow key made =>
    rw [Topology.enter]
    unfold Topology.buildFlowComponents
    cases hc : t.config.priorityBands key.priority with
    | none => exact ⟨t, rfl, h⟩
    | some band =>
      cases made with
      | false => exact ⟨t, rfl, h⟩
      | true =>
        have hsome : (t.config.priorityBands key.priority).isSome := by rw [hc]; rfl
        obtain ⟨t', ht', ha, -⟩ := h.synchronizeFlow hsome
        exact ⟨t', ht', ha⟩
  | cleanupFlowResources live keys => exact ⟨_, rfl, h.cleanupFlowResources live keys⟩
  | cleanupPriorityBandResources live priorities => exact ⟨_, rfl, h.cleanupPriorityBandResources live priorities⟩

theorem Topology.Agrees.samePriorities (h : t.Agrees) : t.SamePriorities where
  stats := Set.ext fun p => by rw [Set.mem_ofPred_eq, Set.mem_ofPred_eq, h.stats p]
  shardConfig := by rw [h.shardConfig]
  bands := Set.ext fun p => by rw [Set.mem_ofPred_eq, Set.mem_ofPred_eq, h.present p]
  levels := Set.ext fun p => h.levels p
  descending := h.sorted
  nodup := h.sorted.imp fun hab => (Int.ne_of_lt hab).symm

end Lookups

/-! ## Runs -/

section Runs

variable {cfg : InitialConfig} {t : Topology}

/-- **The views agree after every section**, whatever the sections, their order
and what they find in the lease maps: the configuration, the statistics, the
shard's configuration, its bands and its ordered levels name the same
priorities. Every section that may follow ends without a panic, and the shard's
`Stats` has every level, with the limits of the configuration. -/
theorem topology_agreement (h : Reaches Topology.enter Topology.Visits (Topology.new cfg) t) :
    t.SamePriorities ∧ (∀ l, t.Visits l → ∃ t', t.enter l = some t') ∧
    ∀ p ∈ t.shard.orderedPriorityLevels, ∃ c stats, t.config.priorityBands p = some c ∧
      t.shard.config.priorityBands p = some c ∧ t.shard.stats p = some stats ∧
      stats.capacityBytes = c.maxBytes ∧ stats.capacityRequests = c.maxRequests := by
  have ha : t.Agrees := by
    refine h.invariant Topology.Agrees (Topology.new_agrees cfg) fun t l t' ha hv hs => ?_
    obtain ⟨t'', hs', ha'⟩ := ha.enter hv
    rw [hs, Option.some.injEq] at hs'
    exact hs' ▸ ha'
  refine ⟨ha.samePriorities, fun l hv => ?_, fun p hp => ?_⟩
  · obtain ⟨t', hs, -⟩ := ha.enter hv
    exact ⟨t', hs⟩
  · have hc := (ha.levels p).mp hp
    obtain ⟨band, hb⟩ := Option.isSome_iff_exists.mp ((ha.present p).trans hc)
    have hconfig := (ha.configs p band hb).1
    refine ⟨band.config, _, hconfig, ?_, congrArg (Option.map _) hb, rfl, rfl⟩
    rw [ha.shardConfig, hconfig]

end Runs

/-- A band is provisioned beside the configured one, gets a flow, and the
configured one is cleaned up. -/
theorem topology_agreement_after_cleanup :
    ∃ t, Reaches Topology.enter Topology.Visits (Topology.new smallConfig) t ∧
      t.shard.orderedPriorityLevels = [7] ∧ t.SamePriorities := by
  have hone : (Topology.new smallConfig).Visits (.ensurePriorityBand 7 [0]) := by
    intro p
    rw [Topology.new_priorityBands, Option.isSome_map, Topology.find?_isSome_iff]
    rfl
  obtain ⟨t₁, t₂, t₃, h₁, h₂, h₃, hlevels⟩ : ∃ t₁ t₂ t₃,
      (Topology.new smallConfig).enter (.ensurePriorityBand 7 [0]) = some t₁ ∧
      t₁.enter (.synchronizeFlow ⟨"f", 7⟩ true) = some t₂ ∧
      t₂.enter (.cleanupPriorityBandResources (fun p => p = 7) [0, 7]) = some t₃ ∧
      t₃.shard.orderedPriorityLevels = [7] :=
    ⟨_, _, _, rfl, rfl, rfl, by decide⟩
  have hvisits₁ : t₁.Visits (.synchronizeFlow ⟨"f", 7⟩ true) := trivial
  have hvisits₂ : t₂.Visits (.cleanupPriorityBandResources (fun p => p = 7) [0, 7]) := trivial
  have hreaches := Reaches.next (Reaches.next (Reaches.next .init hone h₁) hvisits₁ h₂) hvisits₂ h₃
  exact ⟨t₃, hreaches, hlevels, (topology_agreement hreaches).1⟩

end InferenceScheduler.Registry
