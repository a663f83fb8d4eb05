/-
The profile handlers (`plugins/scheduling/profilehandler`, `profile`) and the
way the config loader joins one with the configured profiles.

A handler's `Pick` chooses which profiles `Schedule` runs next from the results
so far. Only the names it returns are kept; one that is not configured stands
for a nil profile. A result is a list of target endpoints, `none` if the run
failed. Of tracing and metrics only `RecordPDDecision`'s panic is kept.
-/
import Mathlib.Data.List.AList
import Mathlib.Data.List.Dedup

namespace InferenceScheduler.Scheduling

/-! ## The handlers -/

/-- With the fields their `Pick` reads. A decider is set or nil; what it answers is
not the handler's. -/
inductive ProfileHandler
  | single
  | dataParallel (primaryPort : Nat)
  | pd (decodeProfile prefillProfile : String) (decider : Bool)
  | disagg (decodeProfile prefillProfile encodeProfile : String) (pdDecider encodeDecider : Bool)
  deriving Repr, DecidableEq

def ProfileHandler.type : ProfileHandler → String
  | .single => "single-profile-handler"
  | .dataParallel _ => "data-parallel-profile-handler"
  | .pd .. => "pd-profile-handler"
  | .disagg .. => "disagg-profile-handler"

/-- `profileResults`: the target endpoints of each executed profile. -/
abbrev Results (ε : Type) := AList fun _ : String => Option (List ε)

namespace Results

variable {ε : Type} (results : Results ε)

/-- `len(profileResults)`. -/
def len : Nat := results.keys.length

/-- `_, executed := profileResults[name]`. -/
def executed (name : String) : Bool := (results.lookup name).isSome

/-- `profileResults[name]`, nil for a missing entry too. -/
def get (name : String) : Option (List ε) := (results.lookup name).join

end Results

section Pick

variable {ρ ε : Type} (profiles : List String) (request : Option ρ)

/-- `SingleProfileHandler.Pick`. -/
def pickSingle (results : Results ε) : List String :=
  if profiles.length = results.len then [] else profiles

/-- `dataparallel.ProfileHandler.Pick`. -/
def pickDataParallel (results : Results ε) : List String :=
  if profiles.length = results.len then []
  else if profiles.length ≠ 1 then []
  else profiles

/-- `none` is a panic; `disaggregate` is what the decider answers now. -/
def pickPd (decodeProfile prefillProfile : String) (decider : Bool) (disaggregate : Option ρ → ε → Bool)
    (results : Results ε) : Option (List String) :=
  if ¬ results.executed decodeProfile then some [decodeProfile]
  else
    match results.get decodeProfile with
    | none => some []
    | some targetEndpoints =>
      if profiles.length = results.len then some []
      else if decider then do
        let endpoint ← targetEndpoints[0]?
        let yes := disaggregate request endpoint
        let _ ← request
        return if yes then [prefillProfile] else []
      else do
        let _ ← request
        return []

/-- One optional stage of `Handler.Pick`: the names to run, or no names and
the results with the stage marked as evaluated. -/
def pickStage (stage : String) (yes : Bool) (results : Results ε) : List String × Results ε :=
  if stage ∈ profiles ∧ ¬ results.executed stage then
    if yes then ([stage], results) else ([], results.insert stage none)
  else ([], results)

/-- `disagg.Handler.Pick`, with the marks it leaves in the results. -/
def pickDisagg (decodeProfile prefillProfile encodeProfile : String) (pdDecider encodeDecider : Bool)
    (prefill encode : Option ρ → ε → Bool) (results : Results ε) : List String × Results ε :=
  if request.isNone then ([], results)
  else if ¬ results.executed decodeProfile then
    if decodeProfile ∈ profiles then ([decodeProfile], results) else ([], results)
  else
    match results.get decodeProfile with
    | none | some [] => ([], results)
    | some (endpoint :: _) =>
      match pickStage profiles encodeProfile (encodeDecider && encode request endpoint) results with
      | ([], results) =>
        pickStage profiles prefillProfile (pdDecider && prefill request endpoint) results
      | picked => picked

/-- The names to run and the results as `Pick` leaves them; `none` is a panic.
`prefill` and `encode` are what the deciders answer. -/
def ProfileHandler.pick (prefill encode : Option ρ → ε → Bool) (results : Results ε) :
    ProfileHandler → Option (List String × Results ε)
  | .single => some (pickSingle profiles results, results)
  | .dataParallel _ => some (pickDataParallel profiles results, results)
  | .pd decodeProfile prefillProfile decider =>
    (pickPd profiles request decodeProfile prefillProfile decider prefill results).map (·, results)
  | .disagg decodeProfile prefillProfile encodeProfile pdDecider encodeDecider =>
    some (pickDisagg profiles request decodeProfile prefillProfile encodeProfile pdDecider encodeDecider
      prefill encode results)

end Pick

/-! ## The loader -/

/-- An instantiated plugin, by the interfaces it implements. -/
structure Plugin where
  type : String
  profileHandler : Option ProfileHandler
  decider : Bool
  scorer : Bool
  filter : Bool
  picker : Bool
  deriving Repr, DecidableEq

/-- The plugins of the handle by name. -/
abbrev Handle := AList fun _ : String => Plugin

/-- Its name and the names of its plugins. -/
structure SchedulingProfile where
  name : String
  plugins : List String
  deriving Repr, DecidableEq

/-- `SchedulerConfig`: the handler and the profiles, a map from distinct
names. -/
structure SchedulerConfig where
  profileHandler : ProfileHandler
  profiles : List String
  nodup : profiles.Nodup

/-- What the handler keeps, with the factory's defaults. -/
structure PdParameters where
  decodeProfile : String := "decode"
  prefillProfile : String := "prefill"
  primaryPort : Int := 0
  deciderPluginName : String := "prefix-based-pd-decider"

/-- `PdProfileHandlerFactory` after the parameters are parsed. -/
def pdProfileHandlerFactory (parameters : PdParameters) (handle : Handle) : Except String ProfileHandler := do
  if parameters.primaryPort ≠ 0 ∧ (parameters.primaryPort < 1 ∨ 65535 < parameters.primaryPort) then
    throw s!"invalid primaryPort: must be between 1 and 65535, got {parameters.primaryPort}"
  if parameters.deciderPluginName = "" then
    throw "decider plugin name is not defined"
  match handle.lookup parameters.deciderPluginName with
  | none => throw s!"invalid decider plugin type: {parameters.deciderPluginName}"
  | some plugin =>
    if ¬ plugin.decider then
      throw s!"decider plugin of type: {parameters.deciderPluginName} does not implement pdDeciderPlugin"
    return .pd parameters.decodeProfile parameters.prefillProfile true

/-- `AddPlugins` for one plugin, from the picker so far; only a second one is refused. -/
def addPlugins (picker : Option String) (name : String) (plugin : Plugin) : Except String (Option String) :=
  if plugin.picker then
    match picker with
    | some other =>
      .error s!"failed to set '{name}/{plugin.type}' as picker, already have a registered picker plugin '{other}'"
    | none => .ok (some (name ++ "/" ++ plugin.type))
  else .ok picker

/-- The plugins of one profile put together. -/
def buildProfile (handle : Handle) (profile : SchedulingProfile) : Except String (Option String) :=
  profile.plugins.foldlM (fun picker ref =>
    match handle.lookup ref with
    | none => .error s!"plugin '{ref}' referenced in profile '{profile.name}' not found in handle"
    | some plugin =>
      (addPlugins picker ref plugin).mapError fun e =>
        s!"failed to add plugin '{ref}' to profile '{profile.name}': {e}") none

/-- The profile handler among the plugins, with its name. -/
def findProfileHandler : List (Sigma fun _ : String => Plugin) → Option (String × ProfileHandler) →
    Except String (Option (String × ProfileHandler))
  | [], found => .ok found
  | ⟨name, plugin⟩ :: plugins, found =>
    match plugin.profileHandler, found with
    | none, _ => findProfileHandler plugins found
    | some _, some (other, _) =>
      .error s!"multiple profile handlers found ('{other}', '{name}'); only one is allowed"
    | some handler, none => findProfileHandler plugins (some (name, handler))

def buildSchedulerConfig (configProfiles : List SchedulingProfile) (handle : Handle) :
    Except String SchedulerConfig := do
  let _ ← configProfiles.mapM (buildProfile handle)
  let profiles := (configProfiles.map (·.name)).dedup
  match ← findProfileHandler handle.entries none with
  | none => throw "no profile handler configured"
  | some (_, profileHandler) =>
    if profileHandler.type = ProfileHandler.type .single ∧ 1 < profiles.length then
      throw "SingleProfileHandler cannot support multiple scheduling profiles"
    return { profileHandler, profiles, nodup := List.nodup_dedup _ }

end InferenceScheduler.Scheduling
