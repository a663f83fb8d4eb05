/-
The Pick/Run loop of `Scheduler.Schedule`. It ends when the profile handler
picks no profile, or the process panics. Everything outside the handler is an
environment with a state, which deciders read and profiles change.

The prefill/decode handler tests whether *all* configured profiles have been
executed, but only ever runs two of them: with a third one configured, as long
as the decider answers yes the prefill profile is run again.
-/
import InferenceScheduler.Scheduling.ProfileHandlers
import Mathlib.Data.List.Perm.Subperm

namespace InferenceScheduler.Scheduling

/-- The deciders and the profiles of a scheduler, over a state `σ`. -/
structure Env (σ ρ ε : Type) where
  /-- The answer of the prefill decider. -/
  prefill : σ → Option ρ → ε → Bool
  /-- The answer of the encode decider. -/
  encode : σ → Option ρ → ε → Bool
  /-- `Run` of the profile of a name: its target endpoints, nil on failure. -/
  run : σ → Option ρ → String → σ × Option (List ε)

/-- How the loop ends. -/
inductive Outcome (σ ε : Type)
  | panicked
  | finished (state : σ) (results : Results ε)

section Loop

variable {σ ρ ε : Type} (c : SchedulerConfig) (env : Env σ ρ ε) (request : Option ρ)

/-- The inner loop over the picked profiles; `none` is the panic of a nil
profile. -/
def runProfiles : List String → σ → Results ε → Option (σ × Results ε)
  | [], s, results => some (s, results)
  | name :: names, s, results =>
    if name ∈ c.profiles then
      runProfiles names (env.run s request name).1 (results.insert name (env.run s request name).2)
    else none

/-- The loop, for as many iterations as there is fuel; `none` when it runs
out. -/
def loop : Nat → σ → Results ε → Option (Outcome σ ε)
  | 0, _, _ => none
  | n + 1, s, results =>
    match c.profileHandler.pick c.profiles request (env.prefill s) (env.encode s) results with
    | none => some .panicked
    | some ([], results) => some (.finished s results)
    | some (name :: names, results) =>
      match runProfiles c env request (name :: names) s results with
      | none => some .panicked
      | some (s, results) => loop n s results

/-- The loop ends, from a state of its results. -/
def Halts (s : σ) (results : Results ε) : Prop := ∃ n, (loop c env request n s results).isSome

/-- `Schedule` leaves the loop. -/
def Stops (s : σ) : Prop := Halts c env request s ∅

/-- The states and results with which an iteration of the loop starts. -/
inductive Visits (s₀ : σ) : σ → Results ε → Prop
  | start : Visits s₀ s₀ ∅
  | next {s s' : σ} {results r r' : Results ε} {name : String} {names : List String} : Visits s₀ s results →
      c.profileHandler.pick c.profiles request (env.prefill s) (env.encode s) results = some (name :: names, r) →
      runProfiles c env request (name :: names) s r = some (s', r') → Visits s₀ s' r'

end Loop

/-! ## Results -/

namespace Results

variable {ε : Type} {results results' : Results ε} {name : String} {v : Option (List ε)}

theorem executed_iff : results.executed name = true ↔ name ∈ results.keys :=
  AList.lookup_isSome.trans AList.mem_keys

@[simp] theorem executed_insert (k : String) :
    Results.executed (results.insert name v) k = true ↔ k = name ∨ results.executed k = true := by
  simp only [executed_iff, ← AList.mem_keys, AList.mem_insert]

@[simp] theorem executed_empty (k : String) : Results.executed (∅ : Results ε) k = false := rfl

theorem len_lt {names : List String} (h : ∀ k, results.executed k = true → k ∈ names) (hn : name ∈ names)
    (hx : ¬ results.executed name = true) : results.len < names.length := by
  have hnodup : (name :: results.keys).Nodup :=
    List.nodup_cons.mpr ⟨fun hk => hx (executed_iff.mpr hk), results.keys_nodup⟩
  refine (hnodup.subperm fun k hk => ?_).length_le
  rcases List.mem_cons.mp hk with rfl | hk
  · exact hn
  · exact h k (executed_iff.mpr hk)

theorem len_lt_of_new (h : ∀ k, results.executed k = true → results'.executed k = true)
    (hn : ¬ results.executed name = true) (hn' : results'.executed name = true) : results.len < results'.len :=
  len_lt (fun k hk => executed_iff.mp (h k hk)) (executed_iff.mp hn') hn

theorem len_eq {names : List String} (hnodup : names.Nodup)
    (h : ∀ k, results.executed k = true ↔ k ∈ names) : results.len = names.length :=
  ((List.perm_ext_iff_of_nodup results.keys_nodup hnodup).mpr fun k => executed_iff.symm.trans (h k)).length_eq

end Results

/-! ## Ending the loop -/

section Halts

variable {σ ρ ε : Type} {c : SchedulerConfig} {env : Env σ ρ ε} {request : Option ρ} {s : σ}
  {results results' : Results ε}

theorem Halts.step
    (h : ∀ name names r, c.profileHandler.pick c.profiles request (env.prefill s) (env.encode s) results =
        some (name :: names, r) → ∀ s' r', runProfiles c env request (name :: names) s r = some (s', r') →
      Halts c env request s' r') : Halts c env request s results := by
  cases hp : c.profileHandler.pick c.profiles request (env.prefill s) (env.encode s) results with
  | none => exact ⟨1, by simp only [loop, hp, Option.isSome_some]⟩
  | some picked =>
    obtain ⟨names, r⟩ := picked
    cases names with
    | nil => exact ⟨1, by simp only [loop, hp, Option.isSome_some]⟩
    | cons name names =>
      cases hr : runProfiles c env request (name :: names) s r with
      | none => exact ⟨1, by simp only [loop, hp, hr, Option.isSome_some]⟩
      | some x =>
        obtain ⟨n, hn⟩ := h name names r hp x.1 x.2 hr
        exact ⟨n + 1, by simpa only [loop, hp, hr] using hn⟩

theorem runProfiles_executed : ∀ {names : List String} {s s' : σ} {results results' : Results ε},
    runProfiles c env request names s results = some (s', results') →
    ∀ k, results'.executed k = true ↔ k ∈ names ∨ results.executed k = true
  | [], _, _, _, _, h, k => by
    cases h
    simp
  | name :: names, s, s', results, results', h, k => by
    simp only [runProfiles] at h
    split at h
    · rw [runProfiles_executed h k, Results.executed_insert, List.mem_cons]
      tauto
    · cases h

theorem runProfiles_configured : ∀ {names : List String} {s s' : σ} {results results' : Results ε},
    runProfiles c env request names s results = some (s', results') → ∀ k ∈ names, k ∈ c.profiles
  | [], _, _, _, _, _, k, hk => by cases hk
  | name :: names, s, s', results, results', h, k, hk => by
    simp only [runProfiles] at h
    split at h
    next hc =>
      rcases List.mem_cons.mp hk with rfl | hk
      · exact hc
      · exact runProfiles_configured h k hk
    · cases h

theorem Visits.invariant {s₀ : σ} (I : σ → Results ε → Prop) (h₀ : I s₀ ∅)
    (hpick : ∀ s results names r, I s results →
      c.profileHandler.pick c.profiles request (env.prefill s) (env.encode s) results = some (names, r) → I s r)
    (hrun : ∀ s results name, I s results → name ∈ c.profiles →
      I (env.run s request name).1 (results.insert name (env.run s request name).2))
    (h : Visits c env request s₀ s results) : I s results := by
  have hruns : ∀ (names : List String) (s s' : σ) (r r' : Results ε), I s r →
      runProfiles c env request names s r = some (s', r') → I s' r' := by
    intro names
    induction names with
    | nil =>
      intro s s' r r' hi hr
      cases hr
      exact hi
    | cons name names ih =>
      intro s s' r r' hi hr
      simp only [runProfiles] at hr
      split at hr
      next hc => exact ih _ _ _ _ (hrun s r name hi hc) hr
      · cases hr
  induction h with
  | start => exact h₀
  | next _ hp hr ih => exact hruns _ _ _ _ _ (hpick _ _ _ _ ih hp) hr

theorem pickStage_lookup {profiles : List String} {stage name : String} {yes : Bool} {targets : List ε}
    (h : AList.lookup name (pickStage profiles stage yes results).2 = some (some targets)) :
    results.lookup name = some (some targets) := by
  unfold pickStage at h
  split at h
  · split at h
    · exact h
    · by_cases he : name = stage
      · subst he
        rw [AList.lookup_insert] at h
        cases h
      · rwa [AList.lookup_insert_ne he] at h
  · exact h

theorem pick_lookup {handler : ProfileHandler} {profiles names : List String} {prefill encode : Option ρ → ε → Bool}
    {name : String} {targets : List ε}
    (hp : handler.pick profiles request prefill encode results = some (names, results'))
    (h : results'.lookup name = some (some targets)) : results.lookup name = some (some targets) := by
  cases handler with
  | single | dataParallel port =>
    cases hp
    exact h
  | pd decode prefill decider =>
    obtain ⟨_, -, he⟩ := Option.map_eq_some_iff.mp hp
    cases he
    exact h
  | disagg decode prefill encode pdDecider encodeDecider =>
    have hr := congrArg Prod.snd (Option.some.inj hp)
    dsimp only at hr
    rw [← hr] at h
    unfold pickDisagg at h
    split at h
    · exact h
    · split at h
      · split at h <;> exact h
      · split at h
        · exact h
        · exact h
        · split at h
          next r hs =>
            have hl : AList.lookup name r = some (some targets) := pickStage_lookup h
            have hr : r = (pickStage profiles encode _ results).2 := (congrArg Prod.snd hs).symm
            rw [hr] at hl
            exact pickStage_lookup hl
          · exact pickStage_lookup h

/-- The executed profiles are configured and among some stages. -/
def Within (c : SchedulerConfig) (stages : List String) (results : Results ε) : Prop :=
  ∀ k, results.executed k = true → k ∈ stages ∧ k ∈ c.profiles

/-- So that the loop ends, a handler picks nothing or one stage not yet executed. -/
def Fresh (c : SchedulerConfig) (stages : List String) (results : Results ε) (picked : List String × Results ε) :
    Prop :=
  picked.1 = [] ∨ ∃ name, picked.1 = [name] ∧
    (name ∈ c.profiles → name ∈ stages ∧ ¬ results.executed name = true) ∧
    Within c stages picked.2 ∧ ∀ k, results.executed k = true → picked.2.executed k = true

theorem halts_of_fresh (stages : List String)
    (hpick : ∀ (s : σ) (results : Results ε) picked, Within c stages results →
      c.profileHandler.pick c.profiles request (env.prefill s) (env.encode s) results = some picked →
      Fresh c stages results picked) :
    ∀ (m : Nat) (s : σ) (results : Results ε), stages.length - results.len ≤ m → Within c stages results →
      Halts c env request s results := by
  intro m
  induction m with
  | zero =>
    intro s results hm hw
    refine Halts.step fun name names r hp s' r' hr => ?_
    rcases hpick s results _ hw hp with h | ⟨k, hk, hnew, -, -⟩
    · cases h
    · cases hk
      obtain ⟨hin, hx⟩ := hnew (runProfiles_configured hr _ List.mem_cons_self)
      have hlt := Results.len_lt (fun j hj => (hw j hj).1) hin hx
      omega
  | succ m ih =>
    intro s results hm hw
    refine Halts.step fun name names r hp s' r' hr => ?_
    rcases hpick s results _ hw hp with h | ⟨k, hk, hnew, hwr, hmono⟩
    · cases h
    · cases hk
      have hc := runProfiles_configured hr _ List.mem_cons_self
      obtain ⟨hin, hx⟩ := hnew hc
      have hex := runProfiles_executed hr
      have hlt : results.len < r'.len :=
        Results.len_lt_of_new (fun j hj => (hex j).mpr (.inr (hmono j hj))) hx
          ((hex name).mpr (.inl List.mem_cons_self))
      refine ih s' r' (by omega) fun j hj => ?_
      rcases (hex j).mp hj with hj | hj
      · cases List.mem_singleton.mp hj
        exact ⟨hin, hc⟩
      · exact hwr j hj

theorem within_empty (stages : List String) : Within c stages (∅ : Results ε) := by
  intro k hk
  simp at hk

end Halts

/-! ## The handlers one by one -/

section Handlers

variable {σ ρ ε : Type} {c : SchedulerConfig} {env : Env σ ρ ε} {request : Option ρ} {s : σ}
  {results : Results ε}

theorem halts_of_all (pick : Results ε → List String)
    (hpick : ∀ s results, c.profileHandler.pick c.profiles request (env.prefill s) (env.encode s) results =
      some (pick results, results))
    (hall : ∀ results, pick results = [] ∨ pick results = c.profiles)
    (hdone : ∀ results, results.len = c.profiles.length → pick results = []) : Stops c env request s := by
  refine Halts.step fun name names r hp s' r' hr => Halts.step fun name' names' r₁ hp' _ _ _ => ?_
  rw [hpick] at hp hp'
  obtain ⟨hn, rfl⟩ := Prod.mk.inj (Option.some.inj hp)
  have hprofiles : name :: names = c.profiles := by
    rcases hall ∅ with h | h
    · rw [h] at hn
      cases hn
    · rw [← hn, h]
  have hex : ∀ k, r'.executed k = true ↔ k ∈ c.profiles := by
    intro k
    rw [runProfiles_executed hr k, hprofiles, Results.executed_empty]
    simp
  rw [hdone r' (Results.len_eq c.nodup hex)] at hp'
  cases hp'

theorem stops_single (h : c.profileHandler = .single) : Stops c env request s := by
  refine halts_of_all (pickSingle c.profiles) (fun s results => by rw [h, ProfileHandler.pick]) (fun results => ?_)
    fun results hl => ?_
  · unfold pickSingle
    split
    · exact .inl rfl
    · exact .inr rfl
  · rw [pickSingle, if_pos hl.symm]

theorem stops_dataParallel {port : Nat} (h : c.profileHandler = .dataParallel port) : Stops c env request s := by
  refine halts_of_all (pickDataParallel c.profiles) (fun s results => by rw [h, ProfileHandler.pick])
    (fun results => ?_) fun results hl => ?_
  · unfold pickDataParallel
    split
    · exact .inl rfl
    · split
      · exact .inl rfl
      · exact .inr rfl
  · rw [pickDataParallel, if_pos hl.symm]

theorem pickStage_fresh {stages : List String} (stage : String) (yes : Bool) (hs : stage ∈ stages)
    (hw : Within c stages results) :
    Fresh c stages results (pickStage c.profiles stage yes results) ∧
      Within c stages (pickStage c.profiles stage yes results).2 ∧
      ∀ k, results.executed k = true → (pickStage c.profiles stage yes results).2.executed k = true := by
  unfold pickStage
  split
  next h =>
    cases yes with
    | true => exact ⟨.inr ⟨stage, rfl, fun _ => ⟨hs, h.2⟩, hw, fun _ hk => hk⟩, hw, fun _ hk => hk⟩
    | false =>
      refine ⟨.inl rfl, fun k hk => ?_, fun k hk => ?_⟩
      · rcases (Results.executed_insert k).mp hk with rfl | hk
        · exact ⟨hs, h.1⟩
        · exact hw k hk
      · exact (Results.executed_insert k).mpr (.inr hk)
  · exact ⟨.inl rfl, hw, fun _ hk => hk⟩

theorem pickDisagg_fresh {decode prefill encode : String} {pdDecider encodeDecider : Bool}
    {pd enc : Option ρ → ε → Bool} (hw : Within c [decode, prefill, encode] results) :
    Fresh c [decode, prefill, encode] results
      (pickDisagg c.profiles request decode prefill encode pdDecider encodeDecider pd enc results) := by
  unfold pickDisagg
  split
  · exact .inl rfl
  · split
    next hx =>
      split
      · exact .inr ⟨decode, rfl, fun _ => ⟨by simp, hx⟩, hw, fun _ hk => hk⟩
      · exact .inl rfl
    · split
      · exact .inl rfl
      · exact .inl rfl
      next endpoint _ _ =>
        obtain ⟨hf, hw', hmono⟩ :=
          pickStage_fresh encode (encodeDecider && enc request endpoint) (by simp) hw
        split
        next r hr =>
          -- the encode stage is done or was just marked, so the prefill stage is looked at
          rw [hr] at hw' hmono
          obtain ⟨hf₂, -, -⟩ := pickStage_fresh prefill (pdDecider && pd request endpoint) (by simp) hw'
          rcases hf₂ with h | ⟨name, h, hnew, hw₂, hm₂⟩
          · exact .inl h
          · exact .inr ⟨name, h, fun hc => ⟨(hnew hc).1, fun hx => (hnew hc).2 (hmono _ hx)⟩, hw₂,
              fun k hk => hm₂ k (hmono k hk)⟩
        · exact hf

theorem stops_disagg {decode prefill encode : String} {pdDecider encodeDecider : Bool}
    (h : c.profileHandler = .disagg decode prefill encode pdDecider encodeDecider) : Stops c env request s := by
  refine halts_of_fresh [decode, prefill, encode] (fun s results picked hw hp => ?_) _ s ∅ le_rfl (within_empty _)
  rw [h, ProfileHandler.pick, Option.some.injEq] at hp
  rw [← hp]
  exact pickDisagg_fresh hw

end Handlers

/-! ## The prefill/decode handler -/

/-- Every configured profile is one the prefill/decode handler runs, unless it stops
early for want of a decider or of a profile. -/
def Settles (c : SchedulerConfig) : Prop :=
  match c.profileHandler with
  | .pd decodeProfile prefillProfile decider =>
    decider = true → decodeProfile ∈ c.profiles → prefillProfile ∈ c.profiles →
      ∀ name ∈ c.profiles, name = decodeProfile ∨ name = prefillProfile
  | _ => True

section Pd

variable {σ ρ ε : Type} {c : SchedulerConfig} {env : Env σ ρ ε} {request : Option ρ} {s : σ}
  {results : Results ε} {decode prefill : String} {decider : Bool}

theorem pickPd_cases {disaggregate : Option ρ → ε → Bool} {picked : List String}
    (h : pickPd c.profiles request decode prefill decider disaggregate results = some picked) :
    picked = [] ∨ (picked = [decode] ∧ ¬ results.executed decode = true) ∨
      (picked = [prefill] ∧ results.executed decode = true ∧ decider = true ∧ c.profiles.length ≠ results.len) := by
  unfold pickPd at h
  split at h
  next hx =>
    cases h
    exact .inr (.inl ⟨rfl, hx⟩)
  next hx =>
    split at h
    · cases h
      exact .inl rfl
    · split at h
      · cases h
        exact .inl rfl
      next hl =>
        split at h
        next hd =>
          simp only [bind, Option.bind_eq_some_iff, pure, Option.some.injEq] at h
          obtain ⟨endpoint, -, -, -, hpicked⟩ := h
          split at hpicked
          · exact .inr (.inr ⟨hpicked.symm, by simpa using hx, hd, hl⟩)
          · exact .inl hpicked.symm
        · simp only [bind, Option.bind_eq_some_iff, pure, Option.some.injEq] at h
          obtain ⟨-, -, hpicked⟩ := h
          exact .inl hpicked.symm

theorem pickPd_fresh (h : c.profileHandler = .pd decode prefill decider) (hc : Settles c)
    {disaggregate : Option ρ → ε → Bool} {picked : List String} (hw : Within c [decode, prefill] results)
    (hp : pickPd c.profiles request decode prefill decider disaggregate results = some picked) :
    Fresh c [decode, prefill] results (picked, results) := by
  rcases pickPd_cases hp with rfl | ⟨rfl, hx⟩ | ⟨rfl, hx, hd, hl⟩
  · exact .inl rfl
  · exact .inr ⟨decode, rfl, fun _ => ⟨by simp, hx⟩, hw, fun _ hk => hk⟩
  · refine .inr ⟨prefill, rfl, fun hin => ⟨by simp, fun hx' => hl ?_⟩, hw, fun _ hk => hk⟩
    -- both profiles have run and no other is configured
    rw [Settles, h] at hc
    refine (Results.len_eq c.nodup fun k => ⟨fun hk => (hw k hk).2, fun hk => ?_⟩).symm
    rcases hc hd (hw decode hx).2 hin k hk with rfl | rfl
    · exact hx
    · exact hx'

theorem stops_pd (h : c.profileHandler = .pd decode prefill decider) (hc : Settles c) : Stops c env request s := by
  refine halts_of_fresh [decode, prefill] (fun s results picked hw hp => ?_) _ s ∅ le_rfl (within_empty _)
  rw [h, ProfileHandler.pick, Option.map_eq_some_iff] at hp
  obtain ⟨names, hp, rfl⟩ := hp
  exact pickPd_fresh h hc hw hp

/-- Deciders that always answer yes and profiles that always find a target. -/
def alwaysYes : Env Unit Unit Unit where
  prefill _ _ _ := true
  encode _ _ _ := true
  run _ _ _ := ((), some [()])

theorem loop_alwaysYes (h : c.profileHandler = .pd decode prefill true) (hpre : prefill ∈ c.profiles)
    {other : String} (ho : other ∈ c.profiles) (hod : other ≠ decode) (hop : other ≠ prefill) :
    ∀ (n : Nat) (results : Results Unit), results.lookup decode = some (some [()]) →
      Within c [decode, prefill] results → loop c alwaysYes (some ()) n () results = none := by
  intro n
  induction n with
  | zero => exact fun _ _ _ => rfl
  | succ n ih =>
    intro results hdec hw
    have hx : ¬ results.executed other = true := fun hk => by
      have := (hw other hk).1
      simp [hod, hop] at this
    have hl : c.profiles.length ≠ results.len :=
      Nat.ne_of_gt (Results.len_lt (fun k hk => (hw k hk).2) ho hx)
    have hp : c.profileHandler.pick c.profiles (some ()) (alwaysYes.prefill ()) (alwaysYes.encode ()) results =
        some ([prefill], results) := by
      simp [h, ProfileHandler.pick, pickPd, Results.executed, Results.get, hdec, hl, alwaysYes]
    simp only [loop, hp, runProfiles, if_pos hpre]
    refine ih _ ?_ fun k hk => ?_
    · by_cases he : decode = prefill
      · subst he
        exact AList.lookup_insert _
      · rw [AList.lookup_insert_ne he]
        exact hdec
    · rcases (Results.executed_insert k).mp hk with rfl | hk
      · exact ⟨by simp, hpre⟩
      · exact hw k hk

theorem not_stops_alwaysYes (h : c.profileHandler = .pd decode prefill true) (hdec : decode ∈ c.profiles)
    (hpre : prefill ∈ c.profiles) {other : String} (ho : other ∈ c.profiles) (hod : other ≠ decode)
    (hop : other ≠ prefill) : ¬ Stops c alwaysYes (some ()) () := by
  rintro ⟨n, hn⟩
  cases n with
  | zero => simp [loop] at hn
  | succ n =>
    have hp : c.profileHandler.pick c.profiles (some ()) (alwaysYes.prefill ()) (alwaysYes.encode ()) ∅ =
        some ([decode], ∅) := by
      simp [h, ProfileHandler.pick, pickPd, Results.executed]
    simp only [loop, hp, runProfiles, if_pos hdec] at hn
    have hw : Within c [decode, prefill] (AList.insert decode (some [()]) (∅ : Results Unit)) := by
      intro k hk
      rcases (Results.executed_insert k).mp hk with rfl | hk
      · exact ⟨by simp, hdec⟩
      · cases hk
    have hnone := loop_alwaysYes h hpre ho hod hop n _ (AList.lookup_insert _) hw
    change (loop c alwaysYes (some ()) n () (AList.insert decode (some [()]) ∅)).isSome = true at hn
    rw [hnone] at hn
    cases hn

end Pd

/-! ## Main result -/

/-- **The scheduling loop stops for every decider and every outcome of the
runs exactly when the prefill/decode handler is not configured with a profile
it never runs.** -/
theorem stops_iff_settles (c : SchedulerConfig) :
    (∀ (σ ρ ε : Type) (env : Env σ ρ ε) (request : Option ρ) (s : σ), Stops c env request s) ↔ Settles c := by
  constructor
  · intro h
    rw [Settles]
    split
    next decode prefill decider hh =>
      intro hd hdec hpre other ho
      subst hd
      by_contra hno
      obtain ⟨hod, hop⟩ := not_or.mp hno
      exact not_stops_alwaysYes hh hdec hpre ho hod hop (h ..)
    · trivial
  · intro hc σ ρ ε env request s
    cases hh : c.profileHandler with
    | single => exact stops_single hh
    | dataParallel port => exact stops_dataParallel hh
    | pd decode prefill decider => exact stops_pd hh hc
    | disagg decode prefill encode pdDecider encodeDecider => exact stops_disagg hh

/-- A handle with the prefill/decode handler of the default names and the
decider that always disaggregates. -/
def pdHandle : Handle :=
  [⟨"always-disagg-pd-decider",
      { type := "always-disagg-pd-decider", profileHandler := none, decider := true, scorer := false,
        filter := false, picker := false }⟩,
    ⟨"max-score-picker",
      { type := "max-score-picker", profileHandler := none, decider := false, scorer := false,
        filter := false, picker := true }⟩,
    ⟨"pd-profile-handler",
      { type := "pd-profile-handler", profileHandler := some (.pd "decode" "prefill" true), decider := false,
        scorer := false, filter := false, picker := false }⟩].toAList

/-- The loader and the factory accept a third profile beside prefill and
decode, and the loop then never ends. -/
theorem extra_profile_never_stops :
    pdProfileHandlerFactory { deciderPluginName := "always-disagg-pd-decider" } pdHandle =
        .ok (.pd "decode" "prefill" true) ∧
      ∃ c, buildSchedulerConfig [⟨"decode", ["max-score-picker"]⟩, ⟨"prefill", ["max-score-picker"]⟩,
          ⟨"canary", ["max-score-picker"]⟩] pdHandle = .ok c ∧
        c.profileHandler = .pd "decode" "prefill" true ∧ c.profiles = ["decode", "prefill", "canary"] ∧
        ¬ Stops c alwaysYes (some ()) () := by
  refine ⟨by decide +kernel, _, rfl, rfl, rfl, ?_⟩
  exact not_stops_alwaysYes rfl (by decide) (by decide) (by decide : "canary" ∈ _) (by decide) (by decide)

end InferenceScheduler.Scheduling
