/-
The registry's configuration, the shard's priority bands and queues, and their
statistics (`registry/config.go`, `registry/shard.go` and the parts of
`registry/registry.go` that run under the registry lock).

A Go map is a function to `Option`. The sections under the registry lock are
functions on the whole topology; `none` is a run-time panic, which the agreement
of the registry's and the shard's views rules out (`Agrees`).
-/
import InferenceScheduler.Types
import Mathlib.Data.List.Sort

namespace InferenceScheduler.Registry

open Function (update update_apply update_self)

/-- `PriorityBandConfig`; a policy instance is given by its reference. -/
structure PriorityBandConfig where
  priority : Int
  orderingPolicy : String
  fairnessPolicy : String
  queue : String
  maxBytes : Nat
  maxRequests : Nat
  deriving DecidableEq, Repr, Inhabited

structure Config where
  maxBytes : Nat
  maxRequests : Nat
  priorityBands : Int → Option PriorityBandConfig
  defaultPriorityBand : PriorityBandConfig
  flowGCTimeout : Int
  priorityBandGCTimeout : Int

/-- Bands of distinct priorities (`WithPriorityBand` refuses a second one) and
timeouts that pass `validate`. -/
structure InitialConfig where
  maxBytes : Nat
  maxRequests : Nat
  bands : List PriorityBandConfig
  defaultPriorityBand : PriorityBandConfig
  flowGCTimeout : Int
  priorityBandGCTimeout : Int
  distinct : (bands.map (·.priority)).Nodup
  flowTimeout_pos : 0 < flowGCTimeout
  timeouts_le : flowGCTimeout ≤ priorityBandGCTimeout

def InitialConfig.toConfig (c : InitialConfig) : Config where
  maxBytes := c.maxBytes
  maxRequests := c.maxRequests
  priorityBands := fun p => c.bands.find? (·.priority = p)
  defaultPriorityBand := c.defaultPriorityBand
  flowGCTimeout := c.flowGCTimeout
  priorityBandGCTimeout := c.priorityBandGCTimeout

/-- One configured band, of priority 0, and a default band with other limits. -/
def smallConfig : InitialConfig where
  maxBytes := 0
  maxRequests := 0
  bands := [{ priority := 0, orderingPolicy := "edf", fairnessPolicy := "round-robin", queue := "ListQueue"
              maxBytes := 64, maxRequests := 8 }]
  defaultPriorityBand := { priority := 0, orderingPolicy := "fcfs", fairnessPolicy := "global-strict"
                           queue := "ListQueue", maxBytes := 1024, maxRequests := 0 }
  flowGCTimeout := 1
  priorityBandGCTimeout := 2
  distinct := by decide
  flowTimeout_pos := by decide
  timeouts_le := by decide

/-! ## Partitioning -/

def partitionUint64 (total partitionIndex totalPartitions : Nat) : Nat :=
  if total = 0 then 0
  else if partitionIndex < total % totalPartitions then total / totalPartitions + 1
  else total / totalPartitions

@[simp] theorem partitionUint64_single (total : Nat) : partitionUint64 total 0 1 = total := by
  unfold partitionUint64
  split <;> simp_all [Nat.mod_one]

/-- A shard's share of a band's limits. -/
def PriorityBandConfig.partition (template : PriorityBandConfig) (shardIndex totalShards : Nat) :
    PriorityBandConfig :=
  { template with
    maxBytes := partitionUint64 template.maxBytes shardIndex totalShards
    maxRequests := partitionUint64 template.maxRequests shardIndex totalShards }

@[simp] theorem PriorityBandConfig.partition_single (b : PriorityBandConfig) : b.partition 0 1 = b := by
  simp [PriorityBandConfig.partition]

structure ShardConfig where
  maxBytes : Nat
  maxRequests : Nat
  priorityBands : Int → Option PriorityBandConfig

/-- `Config.partition`. -/
def Config.partition (c : Config) (shardIndex totalShards : Nat) : ShardConfig where
  maxBytes := partitionUint64 c.maxBytes shardIndex totalShards
  maxRequests := partitionUint64 c.maxRequests shardIndex totalShards
  priorityBands := fun p => (c.priorityBands p).map (·.partition shardIndex totalShards)

@[simp] theorem partition_priorityBands (c : Config) :
    (c.partition 0 1).priorityBands = c.priorityBands := by
  funext p
  simp [Config.partition]

/-! ## The shard -/

structure BandStats where
  byteSize : Int := 0
  len : Int := 0
  deriving DecidableEq, Repr

/-- `priorityBand`; a queue is given by its number. -/
structure PriorityBand where
  fairnessPolicy : String
  config : PriorityBandConfig
  queues : String → Option Nat
  byteSize : Int := 0
  len : Int := 0

/-- `registryShard`. -/
structure Shard where
  config : ShardConfig
  orderedPriorityLevels : List Int := []
  priorityBands : Int → Option PriorityBand := fun _ => none
  totalByteSize : Int := 0
  totalLen : Int := 0

namespace Shard

def initPriorityBand (s : Shard) (bandConfig : PriorityBandConfig) : Shard :=
  { s with
    priorityBands := update s.priorityBands bandConfig.priority
      (some { fairnessPolicy := bandConfig.fairnessPolicy, config := bandConfig, queues := fun _ => none })
    orderedPriorityLevels := (s.orderedPriorityLevels ++ [bandConfig.priority]).insertionSort (· ≥ ·) }

/-- `newShard`. -/
def new (config : ShardConfig) (bands : List PriorityBandConfig) : Shard :=
  bands.foldl initPriorityBand { config }

def addPriorityBand (s : Shard) (priority : Int) : Option Shard :=
  if (s.priorityBands priority).isSome then some s
  else (s.config.priorityBands priority).map s.initPriorityBand

def deletePriorityBand (s : Shard) (priority : Int) : Shard :=
  { s with
    priorityBands := update s.priorityBands priority none
    config := { s.config with priorityBands := update s.config.priorityBands priority none }
    orderedPriorityLevels := s.orderedPriorityLevels.erase priority }

/-- Every band takes its new configuration, which `Agrees` says is there. -/
def updateConfig (s : Shard) (newConfig : ShardConfig) : Shard :=
  { s with
    config := newConfig
    priorityBands := fun p => (s.priorityBands p).map fun band =>
      { band with config := (newConfig.priorityBands p).getD band.config } }

def managedQueue (s : Shard) (key : FlowKey) : Except GoError Nat :=
  match s.priorityBands key.priority with
  | none => .error (.errorf "failed to get managed queue for flow %q: %w" [.sentinel errPriorityBandNotFound])
  | some band =>
    match band.queues key.id with
    | none => .error (.errorf "failed to get managed queue for flow %q: %w" [.sentinel errFlowInstanceNotFound])
    | some q => .ok q

def deleteFlow (s : Shard) (key : FlowKey) : Shard :=
  { s with priorityBands := fun p =>
      if p = key.priority then (s.priorityBands p).map fun band =>
        { band with queues := update band.queues key.id none }
      else s.priorityBands p }

/-- The band's statistics and the shard's own; it panics without the band. -/
def propagateStatsDelta (s : Shard) (priority lenDelta byteSizeDelta : Int) : Option Shard :=
  (s.priorityBands priority).map fun band =>
    { s with
      priorityBands := update s.priorityBands priority
        (some { band with len := band.len + lenDelta, byteSize := band.byteSize + byteSizeDelta })
      totalLen := s.totalLen + lenDelta
      totalByteSize := s.totalByteSize + byteSizeDelta }

end Shard

/-! ## The registry's administrative state -/

/-- What the registry lock protects, with the aggregated statistics. `nextQueue`
numbers the managed queues; `queueKey` is the `key` of each. -/
structure Topology where
  config : Config
  perPriorityBandStats : Int → Option BandStats
  totalByteSize : Int := 0
  totalLen : Int := 0
  shard : Shard
  nextQueue : Nat := 0
  queueKey : Nat → FlowKey := fun _ => default

namespace Topology

/-- `NewFlowRegistry`. -/
def new (c : InitialConfig) : Topology where
  config := c.toConfig
  perPriorityBandStats := fun p => (c.toConfig.priorityBands p).map fun _ => {}
  shard := (Shard.new (c.toConfig.partition 0 1) (c.bands.map (·.partition 0 1))).updateConfig
    (c.toConfig.partition 0 1)

/-- The section of `ensurePriorityBand` on the topology. -/
def ensurePriorityBand (t : Topology) (priority : Int) : Option Topology :=
  if (t.config.priorityBands priority).isSome then some t
  else
    let newBand := { t.config.defaultPriorityBand with priority }
    let config := { t.config with
      priorityBands := update t.config.priorityBands priority (some newBand) }
    let stats := if (t.perPriorityBandStats priority).isSome then t.perPriorityBandStats
      else update t.perPriorityBandStats priority (some {})
    ((t.shard.updateConfig (config.partition 0 1)).addPriorityBand priority).map fun shard =>
      { t with config, perPriorityBandStats := stats, shard }

/-- `made`: `NewQueueFromName` finds a constructor and it succeeds. -/
def buildFlowComponents (t : Topology) (key : FlowKey) (made : Bool) : Except GoError PriorityBandConfig :=
  match t.config.priorityBands key.priority with
  | none => .error (.errorf "priority band %d not found: %w" [.sentinel errPriorityBandNotFound])
  | some bandConfig =>
    if made then .ok bandConfig
    else .error (.errorf "failed to instantiate queue %q for flow %s: %w"
      [.sentinel ("no SafeQueue registered with name " ++ bandConfig.queue)])

/-- A new managed queue for a flow of a band of the shard. -/
def addQueue (t : Topology) (key : FlowKey) (band : PriorityBand) : Topology :=
  let band' := { band with queues := update band.queues key.id (some t.nextQueue) }
  { t with
    shard := { t.shard with
      priorityBands := update t.shard.priorityBands key.priority (some band') }
    nextQueue := t.nextQueue + 1
    queueKey := update t.queueKey t.nextQueue key }

/-- `synchronizeFlow`: creates the flow's queue unless it is there. -/
def synchronizeFlow (t : Topology) (key : FlowKey) : Option Topology :=
  (t.shard.priorityBands key.priority).map fun band =>
    if (band.queues key.id).isSome then t else t.addQueue key band

/-- `cleanupFlowResources`; `live` is what `flowStates.Load` finds. -/
def cleanupFlowResources (t : Topology) (live : FlowKey → Bool) (keys : List FlowKey) : Topology :=
  keys.foldl (fun t key => if live key then t else { t with shard := t.shard.deleteFlow key }) t

/-- The body of the loop of `cleanupPriorityBandResources`. -/
def deletePriorityBand (t : Topology) (priority : Int) : Topology :=
  { t with
    config := { t.config with priorityBands := update t.config.priorityBands priority none }
    perPriorityBandStats := update t.perPriorityBandStats priority none
    shard := t.shard.deletePriorityBand priority }

/-- `live` is what `priorityBandStates.Load` finds. -/
def cleanupPriorityBandResources (t : Topology) (live : Int → Bool) (priorities : List Int) : Topology :=
  priorities.foldl (fun t p => if live p then t else t.deletePriorityBand p) t

/-- `propagateStatsDelta` as a managed queue calls it: the shard's, then the
registry's own. (Nothing reads the counters together.) -/
def propagateStatsDelta (t : Topology) (priority lenDelta byteSizeDelta : Int) : Option Topology :=
  (t.shard.propagateStatsDelta priority lenDelta byteSizeDelta).bind fun shard =>
    (t.perPriorityBandStats priority).map fun stats =>
      { t with
        shard
        perPriorityBandStats := update t.perPriorityBandStats priority
          (some { len := stats.len + lenDelta, byteSize := stats.byteSize + byteSizeDelta })
        totalLen := t.totalLen + lenDelta
        totalByteSize := t.totalByteSize + byteSizeDelta }

/-! ## The views agree -/

/-- The registry's configuration and statistics and the shard's bands, configuration
and ordered levels name the same priorities, the levels in descending order; each
band has its configured limits and policies, each queue its own key. -/
structure Agrees (t : Topology) : Prop where
  keyed : ∀ p c, t.config.priorityBands p = some c → c.priority = p
  stats : ∀ p, (t.perPriorityBandStats p).isSome = (t.config.priorityBands p).isSome
  present : ∀ p, (t.shard.priorityBands p).isSome = (t.config.priorityBands p).isSome
  shardConfig : t.shard.config.priorityBands = t.config.priorityBands
  levels : ∀ p, p ∈ t.shard.orderedPriorityLevels ↔ (t.config.priorityBands p).isSome
  sorted : t.shard.orderedPriorityLevels.Pairwise (· > ·)
  configs : ∀ p band, t.shard.priorityBands p = some band →
    t.config.priorityBands p = some band.config ∧ band.fairnessPolicy = band.config.fairnessPolicy
  queues : ∀ p band id q, t.shard.priorityBands p = some band → band.queues id = some q →
    q < t.nextQueue ∧ t.queueKey q = ⟨id, p⟩

theorem sortDesc_perm (l : List Int) (p : Int) : List.Perm ((l ++ [p]).insertionSort (· ≥ ·)) (p :: l) :=
  (List.perm_insertionSort _ _).trans (List.perm_append_singleton p l)

theorem sortDesc_pairwise {l : List Int} {p : Int} (h : l.Pairwise (· > ·)) (hp : p ∉ l) :
    ((l ++ [p]).insertionSort (· ≥ ·)).Pairwise (· > ·) := by
  have hn : ((l ++ [p]).insertionSort (· ≥ ·)).Nodup := by
    rw [(sortDesc_perm l p).nodup_iff, List.nodup_cons]
    exact ⟨hp, h.imp fun hab => by omega⟩
  refine ((List.pairwise_insertionSort (· ≥ ·) (l ++ [p])).and hn).imp ?_
  intro a b hab
  have := hab.1
  have := hab.2
  omega

/-- The band `initPriorityBand` makes. -/
def bandOf (c : PriorityBandConfig) : PriorityBand where
  fairnessPolicy := c.fairnessPolicy
  config := c
  queues := fun _ => none

theorem foldl_initPriorityBand : ∀ (l : List PriorityBandConfig) (s : Shard),
    (l.map (·.priority)).Nodup → (∀ p ∈ l.map (·.priority), p ∉ s.orderedPriorityLevels) →
    s.orderedPriorityLevels.Pairwise (· > ·) →
    (l.foldl Shard.initPriorityBand s).config = s.config ∧
    (∀ p, (l.foldl Shard.initPriorityBand s).priorityBands p =
      ((l.find? (·.priority = p)).map bandOf).or (s.priorityBands p)) ∧
    (∀ p, p ∈ (l.foldl Shard.initPriorityBand s).orderedPriorityLevels ↔
      p ∈ l.map (·.priority) ∨ p ∈ s.orderedPriorityLevels) ∧
    (l.foldl Shard.initPriorityBand s).orderedPriorityLevels.Pairwise (· > ·)
  | [], s, _, _, hs => by simp [hs]
  | c :: l, s, hnd, hdis, hs => by
    simp only [List.map_cons, List.nodup_cons] at hnd
    have hc : c.priority ∉ s.orderedPriorityLevels := hdis _ (by simp)
    have hmem : ∀ p, p ∈ (s.initPriorityBand c).orderedPriorityLevels ↔
        p = c.priority ∨ p ∈ s.orderedPriorityLevels := fun p => by
      simp only [Shard.initPriorityBand, (sortDesc_perm s.orderedPriorityLevels c.priority).mem_iff, List.mem_cons]
    obtain ⟨h1, h2, h3, h4⟩ := foldl_initPriorityBand l (s.initPriorityBand c) hnd.2
      (fun p hp hin => by
        rcases (hmem p).mp hin with rfl | hin
        · exact hnd.1 hp
        · exact hdis p (by simp only [List.map_cons, List.mem_cons]; exact .inr hp) hin)
      (sortDesc_pairwise hs hc)
    refine ⟨h1, fun p => ?_, fun p => ?_, h4⟩
    · rw [List.foldl_cons, h2]
      simp only [Shard.initPriorityBand, update_apply, List.find?_cons]
      by_cases hp : p = c.priority
      · subst hp
        have hnone : l.find? (fun b => decide (b.priority = c.priority)) = none := by
          rw [List.find?_eq_none]
          intro b hb he
          exact hnd.1 (by simp only [List.mem_map]; exact ⟨b, hb, by simpa using he⟩)
        simp [hnone, bandOf]
      · simp [hp, Ne.symm hp]
    · rw [List.foldl_cons, h3, hmem]
      simp only [List.map_cons, List.mem_cons]
      tauto

theorem foldl_initPriorityBand_totals (l : List PriorityBandConfig) (s : Shard) :
    (l.foldl Shard.initPriorityBand s).totalLen = s.totalLen ∧
      (l.foldl Shard.initPriorityBand s).totalByteSize = s.totalByteSize := by
  induction l generalizing s with
  | nil => exact ⟨rfl, rfl⟩
  | cons c l ih => exact ih _

theorem find?_isSome_iff {c : InitialConfig} {p : Int} :
    (c.bands.find? (·.priority = p)).isSome ↔ p ∈ c.bands.map (·.priority) := by
  simp [List.find?_isSome, List.mem_map]

theorem new_priorityBands (c : InitialConfig) (p : Int) : (Topology.new c).shard.priorityBands p =
    (c.bands.find? (·.priority = p)).map bandOf := by
  have hmap : c.bands.map (·.partition 0 1) = c.bands := by simp
  obtain ⟨-, hbands, -⟩ := foldl_initPriorityBand c.bands { config := c.toConfig.partition 0 1 } c.distinct
    (fun _ _ => by simp) List.Pairwise.nil
  simp only [Topology.new, Shard.updateConfig, Shard.new, hmap, hbands, Option.or_none, partition_priorityBands]
  rw [show c.toConfig.priorityBands p = c.bands.find? (·.priority = p) from rfl]
  cases c.bands.find? (fun b => decide (b.priority = p)) <;> simp [bandOf]

theorem new_agrees (c : InitialConfig) : (Topology.new c).Agrees := by
  have hmap : c.bands.map (·.partition 0 1) = c.bands := by simp
  obtain ⟨-, -, h3, h4⟩ := foldl_initPriorityBand c.bands { config := c.toConfig.partition 0 1 } c.distinct
    (fun _ _ => by simp) List.Pairwise.nil
  have hbands := new_priorityBands c
  constructor
  · intro p b hb
    have := List.find?_some hb
    simpa using this
  · intro p
    simp [Topology.new]
  · intro p
    rw [hbands, Option.isSome_map]
    rfl
  · simp [Topology.new, Shard.updateConfig]
  · intro p
    simp only [Topology.new, Shard.updateConfig, Shard.new, hmap, h3, List.not_mem_nil, or_false]
    exact find?_isSome_iff.symm
  · simpa [Topology.new, Shard.updateConfig, Shard.new, hmap] using h4
  · intro p band hb
    rw [hbands] at hb
    obtain ⟨b, hb', rfl⟩ := Option.map_eq_some_iff.mp hb
    exact ⟨hb', rfl⟩
  · intro p band id q hb hq
    rw [hbands] at hb
    obtain ⟨b, -, rfl⟩ := Option.map_eq_some_iff.mp hb
    cases hq

/-- The configuration after a new band has been provisioned from the default. -/
def grownConfig (t : Topology) (priority : Int) : Config :=
  { t.config with
    priorityBands := update t.config.priorityBands priority
      (some { t.config.defaultPriorityBand with priority }) }

/-- The band the shard creates for it. -/
def freshBand (t : Topology) (priority : Int) : PriorityBand where
  fairnessPolicy := t.config.defaultPriorityBand.fairnessPolicy
  config := { t.config.defaultPriorityBand with priority }
  queues := fun _ => none

variable {t t' : Topology} {p : Int} {key : FlowKey}

theorem ensurePriorityBand_present (hp : (t.config.priorityBands p).isSome) :
    t.ensurePriorityBand p = some t := by
  simp [ensurePriorityBand, hp]

theorem Agrees.updateConfig_bands (h : t.Agrees) (hp : t.config.priorityBands p = none) :
    (t.shard.updateConfig ((t.grownConfig p).partition 0 1)).priorityBands = t.shard.priorityBands := by
  funext q
  simp only [Shard.updateConfig, partition_priorityBands]
  cases hb : t.shard.priorityBands q with
  | none => rfl
  | some band =>
    have hc := (h.configs q band hb).1
    have hq : q ≠ p := fun e => by rw [e, hp] at hc; cases hc
    simp [grownConfig, hq, hc]

theorem ensurePriorityBand_absent (h : t.Agrees) (hp : t.config.priorityBands p = none) :
    t.ensurePriorityBand p = some { t with
      config := t.grownConfig p
      perPriorityBandStats := update t.perPriorityBandStats p (some {})
      shard := { t.shard with
        config := (t.grownConfig p).partition 0 1
        priorityBands := update t.shard.priorityBands p (some (t.freshBand p))
        orderedPriorityLevels := (t.shard.orderedPriorityLevels ++ [p]).insertionSort (· ≥ ·) } } := by
  have hs : (t.perPriorityBandStats p).isSome = false := by rw [h.stats, hp]; rfl
  have hb : (t.shard.priorityBands p).isSome = false := by rw [h.present, hp]; rfl
  have hu := h.updateConfig_bands hp
  simp only [ensurePriorityBand, hp, Option.isSome_none, Bool.false_eq_true, if_false, hs]
  change ((t.shard.updateConfig ((t.grownConfig p).partition 0 1)).addPriorityBand p).map _ = _
  simp only [Shard.addPriorityBand, hu, hb, Bool.false_eq_true, if_false]
  have hc : (t.shard.updateConfig ((t.grownConfig p).partition 0 1)).config.priorityBands p =
      some { t.config.defaultPriorityBand with priority := p } := by
    simp [Shard.updateConfig, grownConfig]
  simp only [hc, Option.map_some, Shard.initPriorityBand, hu]
  rfl

theorem Agrees.ensurePriorityBand (h : t.Agrees) : ∃ t', t.ensurePriorityBand p = some t' ∧ t'.Agrees := by
  cases hp : t.config.priorityBands p with
  | some c => exact ⟨t, ensurePriorityBand_present (by simp [hp]), h⟩
  | none =>
    refine ⟨_, ensurePriorityBand_absent h hp, ?_⟩
    constructor
    · intro q c hq
      simp only [grownConfig, update_apply] at hq
      split at hq
      · simp only [Option.some.injEq] at hq; subst hq; simp_all
      · exact h.keyed q c hq
    · intro q
      simp only [grownConfig, update_apply]
      split
      · rfl
      · exact h.stats q
    · intro q
      simp only [grownConfig, update_apply]
      split
      · rfl
      · exact h.present q
    · simp
    · intro q
      have hmem := (sortDesc_perm t.shard.orderedPriorityLevels p).mem_iff (a := q)
      simp only [hmem, List.mem_cons, h.levels q, grownConfig, update_apply]
      by_cases hq : q = p <;> simp [hq]
    · exact sortDesc_pairwise h.sorted (by simp [h.levels, hp])
    · intro q band hb
      simp only [grownConfig, update_apply] at hb ⊢
      split at hb
      · simp only [Option.some.injEq] at hb; subst hb; simp_all [freshBand]
      · simp_all [h.configs q band]
    · intro q band id n hb hn
      simp only [update_apply] at hb
      split at hb
      · simp only [Option.some.injEq] at hb; subst hb; simp [freshBand] at hn
      · exact h.queues q band id n hb hn

theorem Agrees.addQueue {band : PriorityBand} (h : t.Agrees) (hb : t.shard.priorityBands key.priority = some band) :
    (t.addQueue key band).Agrees := by
  constructor
  · exact h.keyed
  · exact h.stats
  · intro p
    simp only [Topology.addQueue, update_apply]
    split
    · rename_i e; rw [e, ← h.present, hb]; rfl
    · exact h.present p
  · exact h.shardConfig
  · exact h.levels
  · exact h.sorted
  · intro p band' hb'
    simp only [Topology.addQueue, update_apply] at hb'
    split at hb'
    · rename_i e
      simp only [Option.some.injEq] at hb'; subst hb' e
      exact h.configs _ band hb
    · exact h.configs p band' hb'
  · intro p band' id n hb' hn
    simp only [Topology.addQueue, update_apply] at hb' ⊢
    split at hb'
    · rename_i e
      simp only [Option.some.injEq] at hb'; subst hb' e
      simp only [update_apply] at hn
      split at hn
      · rename_i e
        simp only [Option.some.injEq] at hn; subst hn e
        exact ⟨by omega, by simp⟩
      · have := h.queues _ band id n hb hn
        exact ⟨by omega, by rw [if_neg (by omega)]; exact this.2⟩
    · have := h.queues p band' id n hb' hn
      exact ⟨by omega, by rw [if_neg (by omega)]; exact this.2⟩

theorem Agrees.deleteFlow (h : t.Agrees) : ({ t with shard := t.shard.deleteFlow key } : Topology).Agrees := by
  constructor
  · exact h.keyed
  · exact h.stats
  · intro p
    simp only [Shard.deleteFlow]
    split
    · rw [Option.isSome_map]; exact h.present p
    · exact h.present p
  · exact h.shardConfig
  · exact h.levels
  · exact h.sorted
  · intro p band hb
    simp only [Shard.deleteFlow] at hb
    split at hb
    · obtain ⟨band', hb', rfl⟩ := Option.map_eq_some_iff.mp hb
      exact h.configs p band' hb'
    · exact h.configs p band hb
  · intro p band id n hb hn
    simp only [Shard.deleteFlow] at hb
    split at hb
    · obtain ⟨band', hb', rfl⟩ := Option.map_eq_some_iff.mp hb
      simp only [update_apply] at hn
      split at hn
      · cases hn
      · exact h.queues p band' id n hb' hn
    · exact h.queues p band id n hb hn

theorem Agrees.deletePriorityBand (h : t.Agrees) : (t.deletePriorityBand p).Agrees := by
  have hnd : t.shard.orderedPriorityLevels.Nodup := h.sorted.imp fun hab => by omega
  constructor
  · intro q c hq
    simp only [Topology.deletePriorityBand, update_apply] at hq
    split at hq
    · cases hq
    · exact h.keyed q c hq
  · intro q
    simp only [Topology.deletePriorityBand, update_apply]
    split
    · rfl
    · exact h.stats q
  · intro q
    simp only [Topology.deletePriorityBand, Shard.deletePriorityBand, update_apply]
    split
    · rfl
    · exact h.present q
  · simp [Topology.deletePriorityBand, Shard.deletePriorityBand, h.shardConfig]
  · intro q
    simp only [Topology.deletePriorityBand, Shard.deletePriorityBand, hnd.mem_erase_iff, h.levels q,
      update_apply]
    by_cases hq : q = p <;> simp [hq]
  · exact h.sorted.sublist List.erase_sublist
  · intro q band hb
    simp only [Topology.deletePriorityBand, Shard.deletePriorityBand, update_apply] at hb ⊢
    split at hb
    · cases hb
    · simp_all [h.configs q band]
  · intro q band id n hb hn
    simp only [Topology.deletePriorityBand, Shard.deletePriorityBand, update_apply] at hb
    split at hb
    · cases hb
    · exact h.queues q band id n hb hn

variable {b l : Int}

theorem propagateStatsDelta_some (h : t.propagateStatsDelta p l b = some t') :
    ∃ band stats, t.shard.priorityBands p = some band ∧ t.perPriorityBandStats p = some stats ∧
      t' = { t with
        shard := { t.shard with
          priorityBands := update t.shard.priorityBands p
            (some { band with len := band.len + l, byteSize := band.byteSize + b })
          totalLen := t.shard.totalLen + l
          totalByteSize := t.shard.totalByteSize + b }
        perPriorityBandStats := update t.perPriorityBandStats p
          (some { len := stats.len + l, byteSize := stats.byteSize + b })
        totalLen := t.totalLen + l
        totalByteSize := t.totalByteSize + b } := by
  obtain ⟨shard, hshard, hstats⟩ := Option.bind_eq_some_iff.mp h
  obtain ⟨band, hband, rfl⟩ := Option.map_eq_some_iff.mp hshard
  obtain ⟨stats, hst, rfl⟩ := Option.map_eq_some_iff.mp hstats
  exact ⟨band, stats, hband, hst, rfl⟩

theorem Agrees.propagateStatsDelta (h : t.Agrees) (hs : t.propagateStatsDelta p l b = some t') : t'.Agrees := by
  obtain ⟨band, stats, hband, hst, rfl⟩ := propagateStatsDelta_some hs
  constructor
  · exact h.keyed
  · intro q
    simp only [update_apply]
    split
    · subst q; rw [← h.stats, hst]; rfl
    · exact h.stats q
  · intro q
    simp only [update_apply]
    split
    · subst q; rw [← h.present, hband]; rfl
    · exact h.present q
  · exact h.shardConfig
  · exact h.levels
  · exact h.sorted
  · intro q band' hb
    simp only [update_apply] at hb
    split at hb
    · subst q
      cases hb
      exact h.configs p band hband
    · exact h.configs q band' hb
  · intro q band' id n hb hn
    simp only [update_apply] at hb
    split at hb
    · subst q
      cases hb
      exact h.queues p band id n hband hn
    · exact h.queues q band' id n hb hn

theorem foldl_cleanup {α : Type*} (I : Topology → Prop) (live : α → Bool) (f : Topology → α → Topology)
    (hf : ∀ t a, live a = false → I t → I (f t a)) :
    ∀ (l : List α) {t : Topology}, I t → I (l.foldl (fun t a => if live a then t else f t a) t)
  | [], _, h => h
  | a :: l, t, h => by
    rw [List.foldl_cons]
    refine foldl_cleanup I live f hf l ?_
    cases ha : live a with
    | true => simpa using h
    | false => simpa using hf t a ha h

theorem Agrees.cleanupFlowResources (h : t.Agrees) (live : FlowKey → Bool) (keys : List FlowKey) :
    (t.cleanupFlowResources live keys).Agrees :=
  foldl_cleanup Agrees live _ (fun _ _ _ h => h.deleteFlow) keys h

theorem Agrees.cleanupPriorityBandResources (h : t.Agrees) (live : Int → Bool) (ps : List Int) :
    (t.cleanupPriorityBandResources live ps).Agrees :=
  foldl_cleanup Agrees live _ (fun _ _ _ h => h.deletePriorityBand) ps h

/-! ## Queues and configurations that stay -/

/-- The shard holds queue `q` for the flow. -/
def HasQueue (t : Topology) (key : FlowKey) (q : Nat) : Prop :=
  ∃ band, t.shard.priorityBands key.priority = some band ∧ band.queues key.id = some q

instance (t : Topology) (key : FlowKey) (q : Nat) : Decidable (t.HasQueue key q) :=
  match hb : t.shard.priorityBands key.priority with
  | none => .isFalse fun ⟨_, hb', _⟩ => by rw [hb] at hb'; cases hb'
  | some band => decidable_of_iff (band.queues key.id = some q)
      ⟨fun h => ⟨band, hb, h⟩, fun ⟨_, hb', h⟩ => by rw [hb] at hb'; cases hb'; exact h⟩

variable {q : Nat}

theorem managedQueue_ok_iff : t.shard.managedQueue key = .ok q ↔ t.HasQueue key q := by
  unfold Shard.managedQueue HasQueue
  cases hb : t.shard.priorityBands key.priority with
  | none => simp
  | some band => cases hq : band.queues key.id <;> simp [hq]

variable {k : FlowKey}

theorem HasQueue.addQueue {band : PriorityBand} (h : t.HasQueue k q)
    (hb : t.shard.priorityBands key.priority = some band) (hn : band.queues key.id = none) :
    (t.addQueue key band).HasQueue k q := by
  obtain ⟨band', hb', hq⟩ := h
  by_cases hp : k.priority = key.priority
  · rw [hp, hb] at hb'
    cases hb'
    have hid : k.id ≠ key.id := fun e => by rw [e, hn] at hq; cases hq
    refine ⟨{ band with queues := update band.queues key.id (some t.nextQueue) }, ?_, ?_⟩
    · simp [Topology.addQueue, hp]
    · simp [hid, hq]
  · exact ⟨band', by simp [Topology.addQueue, hp, hb'], hq⟩

theorem HasQueue.synchronizeFlow (h : t.HasQueue k q) (hs : t.synchronizeFlow key = some t') : t'.HasQueue k q := by
  obtain ⟨band, hb, rfl⟩ := Option.map_eq_some_iff.mp hs
  split
  · exact h
  · rename_i hn
    exact h.addQueue hb (by simpa using hn)

theorem HasQueue.ensurePriorityBand (ha : t.Agrees) (h : t.HasQueue k q)
    (hs : t.ensurePriorityBand p = some t') : t'.HasQueue k q := by
  cases hp : t.config.priorityBands p with
  | some c =>
    rw [ensurePriorityBand_present (by simp [hp]), Option.some.injEq] at hs
    exact hs ▸ h
  | none =>
    rw [ensurePriorityBand_absent ha hp] at hs
    cases hs
    obtain ⟨band, hb, hq⟩ := h
    have hne : k.priority ≠ p := fun e => by
      have := ha.present p
      rw [← e, hb, e, hp] at this
      cases this
    exact ⟨band, by simp [hne, hb], hq⟩

theorem hasQueue_propagateStatsDelta
    (hs : t.propagateStatsDelta p l b = some t') : t'.HasQueue k q ↔ t.HasQueue k q := by
  obtain ⟨band, stats, hband, -, rfl⟩ := propagateStatsDelta_some hs
  unfold HasQueue
  simp only [update_apply]
  split
  · rename_i hk
    rw [hk, hband]
    simp
  · rfl

theorem HasQueue.cleanupFlowResources (h : t.HasQueue k q) (live : FlowKey → Bool)
    (hl : live k = true) (keys : List FlowKey) : (t.cleanupFlowResources live keys).HasQueue k q := by
  refine foldl_cleanup (fun t => t.HasQueue k q) live _ (fun t key hk h => ?_) keys h
  obtain ⟨band, hb, hq⟩ := h
  by_cases hp : k.priority = key.priority
  · have hid : k.id ≠ key.id := fun e => by
      rw [show k = key by cases k; cases key; simp_all, hk] at hl
      cases hl
    exact ⟨_, by simp only [Shard.deleteFlow, hp, if_true]; rw [← hp, hb]; rfl, by simp [hid, hq]⟩
  · exact ⟨band, by simp [Shard.deleteFlow, hp, hb], hq⟩

theorem HasQueue.cleanupPriorityBandResources (h : t.HasQueue k q) (live : Int → Bool)
    {ps : List Int} (hl : k.priority ∈ ps → live k.priority = true) :
    (t.cleanupPriorityBandResources live ps).HasQueue k q := by
  induction ps generalizing t with
  | nil => exact h
  | cons p ps ih =>
    simp only [Topology.cleanupPriorityBandResources, List.foldl_cons]
    refine ih ?_ fun hm => hl (by simp [hm])
    split
    · exact h
    · rename_i hp
      obtain ⟨band, hb, hq⟩ := h
      have hne : k.priority ≠ p := fun e => hp (by rw [← e]; exact hl (by simp [e]))
      exact ⟨band, by simp [Topology.deletePriorityBand, Shard.deletePriorityBand, hne, hb], hq⟩

theorem ensurePriorityBand_config {c : PriorityBandConfig} {q : Int} (ha : t.Agrees)
    (hs : t.ensurePriorityBand p = some t') (hc : t.config.priorityBands q = some c) :
    t'.config.priorityBands q = some c := by
  cases hp : t.config.priorityBands p with
  | some _ =>
    rw [ensurePriorityBand_present (by simp [hp]), Option.some.injEq] at hs
    exact hs ▸ hc
  | none =>
    rw [ensurePriorityBand_absent ha hp, Option.some.injEq] at hs
    have hne : q ≠ p := fun e => by rw [e, hp] at hc; cases hc
    subst hs
    simpa [grownConfig, hne] using hc

theorem propagateStatsDelta_config (hs : t.propagateStatsDelta p l b = some t') : t'.config = t.config := by
  obtain ⟨band, stats, -, -, rfl⟩ := propagateStatsDelta_some hs
  rfl

theorem synchronizeFlow_config (hs : t.synchronizeFlow key = some t') : t'.config = t.config := by
  obtain ⟨band, hb, rfl⟩ := Option.map_eq_some_iff.mp hs
  split <;> rfl

theorem cleanupFlowResources_config (live : FlowKey → Bool) (keys : List FlowKey) :
    (t.cleanupFlowResources live keys).config = t.config :=
  foldl_cleanup (fun t' => t'.config = t.config) live (fun t key => { t with shard := t.shard.deleteFlow key })
    (fun _ _ _ h => h) keys rfl

theorem cleanupPriorityBandResources_config {ps : List Int} (live : Int → Bool) (hp : p ∉ ps) :
    (t.cleanupPriorityBandResources live ps).config.priorityBands p = t.config.priorityBands p := by
  induction ps generalizing t with
  | nil => rfl
  | cons q ps ih =>
    simp only [List.mem_cons, not_or] at hp
    simp only [Topology.cleanupPriorityBandResources, List.foldl_cons]
    rw [← Topology.cleanupPriorityBandResources, ih hp.2]
    split
    · rfl
    · simp [Topology.deletePriorityBand, hp.1]

theorem Agrees.synchronizeFlow (h : t.Agrees) (hc : (t.config.priorityBands key.priority).isSome) :
    ∃ t', t.synchronizeFlow key = some t' ∧ t'.Agrees ∧ t'.config = t.config ∧ ∃ q, t'.HasQueue key q := by
  obtain ⟨band, hb⟩ := Option.isSome_iff_exists.mp ((h.present key.priority).trans hc)
  simp only [Topology.synchronizeFlow, hb, Option.map_some, Option.some.injEq, exists_eq_left']
  split
  · rename_i hq
    obtain ⟨q, hq⟩ := Option.isSome_iff_exists.mp hq
    exact ⟨h, rfl, q, band, hb, hq⟩
  · exact ⟨h.addQueue hb, rfl, t.nextQueue, _, update_self .., update_self ..⟩

end Topology

end InferenceScheduler.Registry
