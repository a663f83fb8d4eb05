/-
The bands of the initial configuration. They have no lease state; the first flow
on such a band creates one, and from then on the collector treats the band like
a dynamic one. `KeepsStatic` excludes the one branch that
goes wrong: the band collector finding a configured band's state free of leases
and idle for the timeout.
-/
import InferenceScheduler.Registry.Refs

namespace InferenceScheduler.Registry

variable {Tid : Type} [DecidableEq Tid]

/-- The priority is one of the initial configuration's. -/
def InitialConfig.Static (cfg : InitialConfig) (p : Int) : Prop := ∃ band ∈ cfg.bands, band.priority = p

instance (cfg : InitialConfig) (p : Int) : Decidable (cfg.Static p) :=
  inferInstanceAs (Decidable (∃ band ∈ cfg.bands, band.priority = p))

/-- A configured band is in the registry's and the shard's views with its policies
and its limits. -/
structure Provisioned (topo : Topology) (band : PriorityBandConfig) : Prop where
  config : topo.config.priorityBands band.priority = some band
  stats : (topo.perPriorityBandStats band.priority).isSome
  shardConfig : topo.shard.config.priorityBands band.priority = some band
  ordered : band.priority ∈ topo.shard.orderedPriorityLevels
  shard : ∃ b, topo.shard.priorityBands band.priority = some b ∧ b.config = band ∧
    b.fairnessPolicy = band.fairnessPolicy

theorem Topology.Agrees.provisioned {topo : Topology} (h : topo.Agrees) {band : PriorityBandConfig}
    (hc : topo.config.priorityBands band.priority = some band) : Provisioned topo band := by
  have hs : (topo.config.priorityBands band.priority).isSome := by simp [hc]
  obtain ⟨b, hb⟩ := Option.isSome_iff_exists.mp ((h.present _).trans hs)
  obtain ⟨hbc, hbf⟩ := h.configs _ b hb
  rw [hc] at hbc
  cases hbc
  exact ⟨hc, (h.stats _).trans hs, by rw [h.shardConfig, hc], (h.levels _).mpr hs, b, hb, rfl, hbf⟩

/-- The priority, lease state and clock reading of the idle check a step
makes on a band. -/
def State.bandCheck (s : State Tid) : Act Tid → Option (Int × LeasedState × Time)
  | .gcStep _ =>
    match s.gc with
    | .bands (.visit sc p b) => some (p, s.bands.obj b, sc.now)
    | _ => none
  | _ => none

/-- A configured band's state is not found free of leases and idle for the
timeout. -/
def KeepsStatic (cfg : InitialConfig) (s : State Tid) (a : Act Tid) : Prop :=
  ∀ c ∈ s.bandCheck a, ¬(cfg.Static c.1 ∧ c.2.1.IdleFor s.topo.config.priorityBandGCTimeout c.2.2)

instance (cfg : InitialConfig) (s : State Tid) (a : Act Tid) : Decidable (KeepsStatic cfg s a) :=
  inferInstanceAs (Decidable (∀ c ∈ s.bandCheck a, _))

/-- The priorities the band collector has in hand. -/
def GcPc.condemned (bandKey : Nat → Int) : GcPc → List Int
  | .bands (.range sc) | .bands (.visit sc _ _) => sc.found.map bandKey
  | .bands (.delete sc p _) => p :: sc.found.map bandKey
  | .cleanBands ps => ps
  | _ => []

theorem GcPc.condemned_congr {gc : GcPc} {key key' : Nat → Int} (h : ∀ b ∈ gc.removedBands, key b = key' b) :
    gc.condemned key = gc.condemned key' := by
  cases gc with
  | bands pc =>
    cases pc <;> simp only [GcPc.condemned, GcPc.removedBands] at h ⊢ <;> rw [List.map_congr_left h]
  | _ => rfl

/-! ## Without the branch, every configured band stays -/

/-- The configured bands are in place and the collector is after none of
them. -/
structure StaticKept (cfg : InitialConfig) (s : State Tid) : Prop where
  refs : Refs s
  sound : Sound s
  config : ∀ band ∈ cfg.bands, s.topo.config.priorityBands band.priority = some band
  condemned : ∀ p ∈ s.gc.condemned s.bands.key, ¬cfg.Static p

variable {cfg : InitialConfig} {s s' : State Tid} {t : Tid} {a : Act Tid}

omit [DecidableEq Tid] in
theorem StaticKept.condemned_create (h : StaticKept cfg s) {q : Int} :
    ∀ p ∈ s.gc.condemned (s.bands.create q).key, ¬cfg.Static p := by
  rw [GcPc.condemned_congr fun b hb => Leases.create_key_of_lt (h.refs.removed b hb)]
  exact h.condemned

theorem CallMoves.staticKept {now : Time} {made : Bool} (h : StaticKept cfg s)
    (m : CallMoves s t now made s') : StaticKept cfg s' := by
  refine ⟨m.refs h.refs, m.sound h.sound, ?_, ?_⟩
  · cases m with
    | ensureBand _ _ he _ =>
      intro band hb
      exact Topology.ensurePriorityBand_config h.sound.agrees he (h.config band hb)
    | @syncOk c _ topo _ _ hs =>
      change ∀ band ∈ cfg.bands, topo.config.priorityBands band.priority = some band
      rw [Topology.synchronizeFlow_config hs]
      exact h.config
    | _ => exact h.config
  · cases m with
    | bandCreate => exact h.condemned_create
    | @ensureBand c topo bands _ _ _ hbands =>
      change ∀ p ∈ s.gc.condemned bands.key, ¬cfg.Static p
      rw [hbands]
      split
      · exact h.condemned
      · exact h.condemned_create
    | _ => exact h.condemned

omit [DecidableEq Tid] in
theorem GcMoves.staticKept (h : StaticKept cfg s) (hok : KeepsStatic cfg s a) (m : GcMoves s a s') :
    StaticKept cfg s' := by
  have hcond := h.condemned
  refine ⟨m.refs h.refs, m.sound h.sound, ?_, ?_⟩
  · cases m with
    | cleanFlows =>
      rw [Topology.cleanupFlowResources_config]
      exact h.config
    | cleanBands hpc =>
      intro band hb
      rw [Topology.cleanupPriorityBandResources_config _ fun hm =>
        hcond _ (by simpa [hpc, GcPc.condemned] using hm) ⟨band, hb, rfl⟩]
      exact h.config band hb
    | _ => exact h.config
  · cases m with
    | markBand hpc hc =>
      -- the check answered "idle for the timeout", which the condition excludes for a configured band
      intro q hq
      have hidle := hok _ (by rw [State.bandCheck, hpc]; rfl)
      simp only [hpc, GcPc.condemned] at hcond
      rcases List.mem_cons.mp hq with rfl | hq
      · exact fun hs => hidle ⟨hs, LeasedState.check_iff.mp hc⟩
      · exact hcond q hq
    | deleteBand hpc hw =>
      intro q hq
      simp only [hpc, GcPc.condemned, List.mem_cons] at hcond
      simp only [GcPc.condemned, List.map_append, List.mem_append, List.map_cons, List.map_nil,
        List.mem_singleton] at hq
      rcases hq with hq | rfl
      · exact hcond q (.inr hq)
      · exact hcond _ (.inl (h.refs.bandTable _ _ hw).2)
    | bandGone hpc =>
      simp only [hpc, GcPc.condemned, List.mem_cons] at hcond
      exact fun q hq => hcond q (.inr hq)
    | _ hpc => simp_all [GcPc.condemned]

theorem Moves.staticKept (h : StaticKept cfg s) (hok : KeepsStatic cfg s a) (m : Moves s a s') :
    StaticKept cfg s' := by
  cases m with
  | call m => exact m.staticKept h
  | gc m => exact m.staticKept h hok
  | start hpc => exact ⟨(Moves.start hpc).refs h.refs, (Moves.start hpc).sound h.sound, h.config, h.condemned⟩
  | refuse hpc hid =>
    exact ⟨(Moves.refuse hpc hid).refs h.refs, (Moves.refuse hpc hid).sound h.sound, h.config, h.condemned⟩
  | finish hpc => exact ⟨(Moves.finish hpc).refs h.refs, (Moves.finish hpc).sound h.sound, h.config, h.condemned⟩
  | stats ht =>
    refine ⟨(Moves.stats ht).refs h.refs, (Moves.stats ht).sound h.sound, ?_, h.condemned⟩
    rw [Topology.propagateStatsDelta_config ht]
    exact h.config

omit [DecidableEq Tid] in
theorem staticKept_new (cfg : InitialConfig) : StaticKept cfg (State.new cfg : State Tid) where
  refs := refs_new cfg
  sound := ⟨Topology.new_agrees cfg, rfl⟩
  config band hb := by
    obtain ⟨b, hf⟩ := Option.isSome_iff_exists.mp
      (List.find?_isSome.mpr ⟨band, hb, by simp⟩ : (cfg.bands.find? (·.priority = band.priority)).isSome)
    have hp : b.priority = band.priority := by simpa using List.find?_some hf
    rw [List.inj_on_of_nodup_map cfg.distinct (List.mem_of_find?_eq_some hf) hb hp] at hf
    exact hf
  condemned := by simp [State.new, GcPc.condemned]

/-- **A configured band is permanent** in every run in which the band
collector never finds a configured band's lease state free of leases and
idle for `PriorityBandGCTimeout`. -/
theorem static_bands_permanent {band : PriorityBandConfig}
    (h : Reaches step (KeepsStatic cfg) (State.new cfg) s) (hb : band ∈ cfg.bands) :
    Provisioned s.topo band := by
  have hk : StaticKept cfg s :=
    h.invariant (StaticKept cfg) (staticKept_new cfg) fun _ _ _ hi hok hs => (step_moves hs).staticKept hi hok
  exact hk.sound.agrees.provisioned (hk.config band hb)

/-! ## The branch, taken -/

/-- One call on the flow, from start to the callback, at time 1. -/
def connect (key : FlowKey) : List (Act Unit) := .start () key :: List.replicate 13 (.call () 1 true)

/-- The call ends; the flow is collected at time 2 and its band at time 4. -/
def collectAll (key : FlowKey) : List (Act Unit) :=
  [.finish () none, .call () 1 true,
    .gcBegin 2, .gcVisitFlow key, .gcStep 2, .gcStep 2, .gcEndRange, .gcStep 2, .gcStep 2, .gcStep 2,
    .gcStep 2, .gcEndRange,
    .gcBegin 4, .gcEndRange, .gcStep 4, .gcVisitBand key.priority, .gcStep 4, .gcStep 4, .gcEndRange, .gcStep 4]

/-- **A configured band is collected**: after its only flow has come and
gone, neither the registry's configuration nor the shard has it. -/
theorem static_band_collected : ∃ band ∈ smallConfig.bands, ∃ s : State Unit,
    Reaches step Any (State.new smallConfig) s ∧ s.topo.config.priorityBands band.priority = none ∧
      s.topo.shard.priorityBands band.priority = none ∧ ¬Provisioned s.topo band := by
  obtain ⟨s, hs, hp⟩ := exists_of_run step (State.new smallConfig) (connect ⟨"f", 0⟩ ++ collectAll ⟨"f", 0⟩)
    (fun s => (s.topo.config.priorityBands 0).isNone ∧ (s.topo.shard.priorityBands 0).isNone)
    (by decide +kernel)
  simp only [Option.isNone_iff_eq_none] at hp
  refine ⟨smallConfig.bands.head (by decide), List.head_mem _, s, hs, hp.1, hp.2, fun h => ?_⟩
  have hc := h.config
  rw [show (smallConfig.bands.head (by decide)).priority = 0 from rfl, hp.1] at hc
  cases hc

/-- While its flow is leased the band is checked by the collector and stays. -/
theorem static_bands_permanent_leased : ∃ s : State Unit,
    Reaches step (KeepsStatic smallConfig) (State.new smallConfig) s ∧ s.gc.condemned s.bands.key = [] ∧
      Provisioned s.topo (smallConfig.bands.head (by decide)) := by
  obtain ⟨s, hs, hp⟩ := exists_of_runIf step (KeepsStatic smallConfig) (State.new smallConfig)
    (connect ⟨"f", 0⟩ ++ [.gcBegin 9, .gcVisitFlow ⟨"f", 0⟩, .gcStep 9, .gcEndRange, .gcStep 9,
      .gcVisitBand 0, .gcStep 9])
    (fun s => s.gc.condemned s.bands.key = []) (by decide +kernel)
  exact ⟨s, hs, hp, static_bands_permanent hs (List.head_mem _)⟩

end InferenceScheduler.Registry
