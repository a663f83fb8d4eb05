/-
A whole resync of the datastore (`podResyncAll` of `datastore/datastore.go`)
after completed operations: which endpoints are stored, and which calls of the
endpoint factory were made on the way. A name that is made is one the pool
prescribes, so the calls for a name that is gone come to a single release.
-/
import InferenceScheduler.Datastore.Store
import InferenceScheduler.Lib.Run

namespace InferenceScheduler.Datastore.Store

/-! ## The calls of the endpoint factory -/

inductive FactoryCall
  | new (name : NamespacedName)
  | release (name : NamespacedName)
  deriving DecidableEq

/-- The calls made by a loop with the body `f`. -/
def logFold {ι : Type} (f : Store → ι → Store) (g : Store → ι → List FactoryCall) : Store → List ι → List FactoryCall
  | _, [] => []
  | ds, i :: l => g ds i ++ logFold f g (f ds i) l

def dropCalls (ds : Store) (name : NamespacedName) : List FactoryCall :=
  if name ∈ ds.pods then [.release name] else []

def syncActiveCalls (pool : EndpointPool) (pod : Pod) (ds : Store) (idx : Nat) : List FactoryCall :=
  match prescribes ds.modelServerMetricsPort pool pod idx with
  | some _ =>
    if createEndpointNamespacedName pod.key idx ∈ ds.pods then [] else [.new (createEndpointNamespacedName pod.key idx)]
  | none => []

def dropInactiveCalls (pool : EndpointPool) (pod : Pod) (ds : Store) (idx : Nat) : List FactoryCall :=
  match prescribes ds.modelServerMetricsPort pool pod idx with
  | some _ => []
  | none => ds.dropCalls (createEndpointNamespacedName pod.key idx)

/-- The calls of `podUpdateOrAddIfNotExist`. -/
def podUpdateCalls (pool : EndpointPool) (ds : Store) (pod : Pod) : List FactoryCall :=
  let places := List.range pool.targetPorts.length
  logFold (fun ds idx => ds.syncActive pool pod idx) (syncActiveCalls pool pod) ds places ++
    logFold (fun ds idx => ds.dropInactive pool pod idx) (dropInactiveCalls pool pod)
      (places.foldl (fun ds idx => ds.syncActive pool pod idx) ds) places

/-- The calls of `podResyncAll`. -/
def resyncCalls (ds : Store) (pool : EndpointPool) (podList : List Pod) : List FactoryCall :=
  let ready := podList.filter isPodReady
  let active := ready.flatMap fun pod =>
    (List.range pool.targetPorts.length).map (createEndpointNamespacedName pod.key)
  let ds' := ready.foldl (fun ds pod => ds.podUpdateOrAddIfNotExist pod pool) ds
  logFold (fun ds pod => ds.podUpdateOrAddIfNotExist pod pool) (podUpdateCalls pool) ds ready ++
    logFold (fun ds name => if name ∈ active then ds else ds.dropEndpoint name)
      (fun ds name => if name ∈ active then [] else ds.dropCalls name) ds' ds'.pods.keys

/-! ## The account of the calls -/

def present (ds : Store) (name : NamespacedName) : Nat := if name ∈ ds.pods then 1 else 0

/-- What is there and what was released are what was there and what was made. -/
def Accounts (ds ds' : Store) (log : List FactoryCall) : Prop :=
  ∀ name, log.count (.release name) + ds'.present name = ds.present name + log.count (.new name)

variable {ds ds' ds'' : Store} {log log' : List FactoryCall} {port : Int}

theorem Accounts.trans (h : Accounts ds ds' log) (h' : Accounts ds' ds'' log') : Accounts ds ds'' (log ++ log') := by
  intro name
  have h₁ := h name
  have h₂ := h' name
  simp only [List.count_append]
  omega

theorem present_of_lookup {name : NamespacedName} (h : ds'.pods.lookup name = ds.pods.lookup name) :
    ds'.present name = ds.present name := by
  simp only [present, ← AList.lookup_isSome, h]

/-- The states of a resync. -/
def Steady (port : Int) (ds : Store) : Prop := ds.Consistent ∧ ds.modelServerMetricsPort = port

theorem Wrote.steady {w : NamespacedName → Option Metadata → Prop} (h : Wrote ds ds' w) (hds : Steady port ds) :
    Steady port ds' := ⟨h.consistent, h.modelServerMetricsPort.trans hds.2⟩

section

variable {ι : Type} {f : Store → ι → Store} {g : Store → ι → List FactoryCall}

theorem foldl_accounts (hf : ∀ ds i, Steady port ds → Steady port (f ds i) ∧ Accounts ds (f ds i) (g ds i)) :
    ∀ (l : List ι) (ds : Store), Steady port ds → Steady port (l.foldl f ds) ∧ Accounts ds (l.foldl f ds) (logFold f g ds l)
  | [], _, h => ⟨h, fun _ => by simp [logFold]⟩
  | i :: l, ds, h => by
    obtain ⟨h₁, ha₁⟩ := hf ds i h
    obtain ⟨h₂, ha₂⟩ := foldl_accounts hf l (f ds i) h₁
    exact ⟨h₂, ha₁.trans ha₂⟩

theorem mem_logFold (hf : ∀ ds i, Steady port ds → Steady port (f ds i)) {call : FactoryCall} :
    ∀ {l : List ι} {ds : Store}, Steady port ds → call ∈ logFold f g ds l →
      ∃ i ∈ l, ∃ ds', Steady port ds' ∧ call ∈ g ds' i
  | i :: l, ds, h, hmem => by
    rcases List.mem_append.mp hmem with hmem | hmem
    · exact ⟨i, List.mem_cons_self, ds, h, hmem⟩
    · obtain ⟨j, hj, hds'⟩ := mem_logFold hf (hf ds i h) hmem
      exact ⟨j, List.mem_cons_of_mem _ hj, hds'⟩

end

theorem accounts_nil (ds : Store) : Accounts ds ds [] := fun _ => by simp

theorem dropEndpoint_accounts (h : Steady port ds) (name : NamespacedName) :
    Steady port (ds.dropEndpoint name) ∧ Accounts ds (ds.dropEndpoint name) (ds.dropCalls name) := by
  have hw : Wrote ds (ds.dropEndpoint name) fun n v => n = name ∧ v = none := dropEndpoint_wrote h.1
  refine ⟨hw.steady h, fun n => ?_⟩
  by_cases hn : n = name
  · subst hn
    have hgone : ¬ n ∈ (ds.dropEndpoint n).pods := AList.lookup_eq_none.mp (hw.written n none ⟨rfl, rfl⟩)
    by_cases hin : n ∈ ds.pods <;> simp [present, hgone, dropCalls, hin]
  · have hkept := present_of_lookup (hw.kept n fun v hv => hn hv.1)
    unfold dropCalls
    split <;> simp [hkept, Ne.symm hn]

/-- An endpoint is made unless it is there. -/
theorem syncEndpoint_accounts (h : Steady port ds) (name : NamespacedName) (metadata : Metadata) :
    Accounts ds (ds.syncEndpoint name metadata) (if name ∈ ds.pods then [] else [.new name]) := by
  have hw : Wrote ds (ds.syncEndpoint name metadata) fun n v => n = name ∧ v = some metadata := syncEndpoint_wrote h.1
  intro n
  by_cases hn : n = name
  · subst hn
    have hthere : n ∈ (ds.syncEndpoint n metadata).pods :=
      AList.lookup_isSome.mp (by rw [hw.written n _ ⟨rfl, rfl⟩]; rfl)
    by_cases hin : n ∈ ds.pods <;> simp [present, hthere, hin]
  · have hkept := present_of_lookup (hw.kept n fun v hv => hn hv.1)
    split <;> simp [hkept, Ne.symm hn]

theorem syncActive_accounts (pool : EndpointPool) (pod : Pod) (h : Steady port ds) (idx : Nat) :
    Steady port (ds.syncActive pool pod idx) ∧ Accounts ds (ds.syncActive pool pod idx) (syncActiveCalls pool pod ds idx) := by
  refine ⟨(syncActive_wrote pool pod idx h.1 h.2).steady h, ?_⟩
  unfold syncActive syncActiveCalls
  cases prescribes ds.modelServerMetricsPort pool pod idx with
  | none => exact accounts_nil ds
  | some metadata => exact syncEndpoint_accounts h _ metadata

theorem dropInactive_accounts (pool : EndpointPool) (pod : Pod) (h : Steady port ds) (idx : Nat) :
    Steady port (ds.dropInactive pool pod idx) ∧
      Accounts ds (ds.dropInactive pool pod idx) (dropInactiveCalls pool pod ds idx) := by
  unfold dropInactive dropInactiveCalls
  cases prescribes ds.modelServerMetricsPort pool pod idx with
  | none => exact dropEndpoint_accounts h _
  | some metadata => exact ⟨h, accounts_nil ds⟩

theorem dropOther_accounts (active : List NamespacedName) (h : Steady port ds) (name : NamespacedName) :
    Steady port (if name ∈ active then ds else ds.dropEndpoint name) ∧
      Accounts ds (if name ∈ active then ds else ds.dropEndpoint name) (if name ∈ active then [] else ds.dropCalls name) := by
  by_cases hin : name ∈ active
  · simp only [hin, if_true]
    exact ⟨h, accounts_nil ds⟩
  · simp only [hin, if_false]
    exact dropEndpoint_accounts h name

theorem podUpdate_accounts (pool : EndpointPool) (h : Steady port ds) (pod : Pod) :
    Steady port (ds.podUpdateOrAddIfNotExist pod pool) ∧
      Accounts ds (ds.podUpdateOrAddIfNotExist pod pool) (podUpdateCalls pool ds pod) := by
  obtain ⟨h₁, ha₁⟩ := foldl_accounts (fun ds idx h => syncActive_accounts pool pod h idx)
    (List.range pool.targetPorts.length) ds h
  obtain ⟨h₂, ha₂⟩ := foldl_accounts (fun ds idx h => dropInactive_accounts pool pod h idx)
    (List.range pool.targetPorts.length) _ h₁
  exact ⟨h₂, ha₁.trans ha₂⟩

/-- **The account of a resync.** -/
theorem resync_accounts (pool : EndpointPool) (podList : List Pod) (h : Steady port ds) :
    Steady port (ds.resync pool podList) ∧ Accounts ds (ds.resync pool podList) (ds.resyncCalls pool podList) := by
  obtain ⟨h₁, ha₁⟩ := foldl_accounts (fun ds pod h => podUpdate_accounts pool h pod) (podList.filter isPodReady) ds h
  obtain ⟨h₂, ha₂⟩ := foldl_accounts (fun ds name h => dropOther_accounts ((podList.filter isPodReady).flatMap fun pod =>
      (List.range pool.targetPorts.length).map (createEndpointNamespacedName pod.key)) h name)
    ((podList.filter isPodReady).foldl (fun ds pod => ds.podUpdateOrAddIfNotExist pod pool) ds).pods.keys _ h₁
  exact ⟨h₂, ha₁.trans ha₂⟩

theorem prescribes_of_new {pool : EndpointPool} {podList : List Pod} (h : Steady port ds) {name : NamespacedName}
    (hnew : .new name ∈ ds.resyncCalls pool podList) : ∃ pod ∈ podList.filter isPodReady, ∃ idx,
      name = createEndpointNamespacedName pod.key idx ∧ (prescribes port pool pod idx).isSome := by
  have hdrop : ∀ (ds : Store) (n : NamespacedName), .new name ∉ ds.dropCalls n := by
    intro ds n
    unfold dropCalls
    split <;> simp
  rcases List.mem_append.mp hnew with hnew | hnew
  · obtain ⟨pod, hpod, ds', hds', hcall⟩ := mem_logFold (fun ds pod h => (podUpdate_accounts pool h pod).1) h hnew
    rcases List.mem_append.mp hcall with hcall | hcall
    · obtain ⟨idx, -, ds'', hds'', hcall⟩ := mem_logFold (fun ds idx h => (syncActive_accounts pool pod h idx).1) hds' hcall
      unfold syncActiveCalls at hcall
      rw [hds''.2] at hcall
      split at hcall
      · next metadata hm =>
        refine ⟨pod, hpod, idx, ?_, by rw [hm]; rfl⟩
        split at hcall
        · simp at hcall
        · simpa using hcall
      · simp at hcall
    · have h₁ := (foldl_accounts (fun ds idx h => syncActive_accounts pool pod h idx)
        (List.range pool.targetPorts.length) ds' hds').1
      obtain ⟨idx, -, ds'', -, hcall⟩ := mem_logFold (fun ds idx h => (dropInactive_accounts pool pod h idx).1) h₁ hcall
      unfold dropInactiveCalls at hcall
      split at hcall
      · simp at hcall
      · exact absurd hcall (hdrop _ _)
  · have h₁ := (foldl_accounts (fun ds pod h => podUpdate_accounts pool h pod) (podList.filter isPodReady) ds h).1
    obtain ⟨n, -, ds', -, hcall⟩ := mem_logFold (fun ds n h => (dropOther_accounts _ h n).1) h₁ hnew
    split at hcall
    · simp at hcall
    · exact absurd hcall (hdrop _ _)

/-! ## Completed operations -/

/-- The operations of the datastore, each as a whole. -/
inductive Operation
  | poolSet (cluster : Cluster) (failure : Option String) (pool : Option EndpointPool)
  | podUpdateOrAddIfNotExist (pod : Pod)
  | podDelete (podName : Text)
  | clear

def podDelete (ds : Store) (podName : Text) : Store :=
  ds.pods.keys.foldl (fun ds name =>
    if (ds.pods.lookup name).any (·.podName = podName) then ds.dropEndpoint name else ds) ds

def apply (ds : Store) : Operation → Option Store
  | .poolSet cluster failure pool => some (ds.poolSet cluster failure pool).1
  | .podUpdateOrAddIfNotExist pod =>
    match ds.pool with
    | none => some ds
    | some pool => some (ds.podUpdateOrAddIfNotExist pod pool)
  | .podDelete podName => some (ds.podDelete podName)
  | .clear => some ds.clear

theorem consistent_of_reaches {ds₀ : Store} (h₀ : ds₀.Consistent) (hs : Reaches apply Any ds₀ ds) : ds.Consistent := by
  refine hs.invariant Consistent h₀ ?_
  intro s op s' h _ hstep
  cases op with
  | poolSet cluster failure pool =>
    cases hstep
    exact h.poolSet cluster failure pool
  | podUpdateOrAddIfNotExist pod =>
    simp only [apply] at hstep
    split at hstep
    · cases hstep
      exact h
    · next pool _ =>
      cases hstep
      exact (podUpdateOrAddIfNotExist_wrote pool pod h rfl).consistent
  | podDelete podName =>
    cases hstep
    have hdelete : ∀ (names : List NamespacedName) (s : Store), s.Consistent → (names.foldl (fun ds name =>
        if (ds.pods.lookup name).any (·.podName = podName) then ds.dropEndpoint name else ds) s).Consistent := by
      intro names
      induction names with
      | nil => exact fun s hs => hs
      | cons name names ih =>
        intro s hs
        refine ih _ ?_
        dsimp only
        split
        · exact (dropEndpoint_wrote hs).consistent
        · exact hs
    exact hdelete _ s h
  | clear =>
    cases hstep
    exact h.clear

/-- **A resync is exact.** After completed operations, a `PoolSet` that resyncs
and returns nil stores just the endpoints of the active target ports of the
ready pods that were listed, each with its pod's address and its port; different
pods and places have different names; and what has disappeared was released
once. -/
theorem resync_exact {ds₀ ds : Store} (h₀ : ds₀.Consistent) (hs : Reaches apply Any ds₀ ds) (cluster : Cluster)
    (failure : Option String) (pool : EndpointPool) (hneeds : ds.needsResync pool = true)
    (hnil : (ds.poolSet cluster failure (some pool)).2 = none) :
    let ds' := (ds.poolSet cluster failure (some pool)).1
    (∀ name metadata, ds'.pods.lookup name = some metadata ↔
      ∃ pod ∈ readyPods pool cluster, ∃ idx port, pool.targetPorts[idx]? = some port ∧ pod.Active port ∧
        name = ⟨pod.ns, pod.name ++ "-rank-".toList ++ Nat.toDigits 10 idx⟩ ∧
        metadata.address = pod.podIP ∧ metadata.port = itoa port ∧
        metadata = endpointMetadata ds.modelServerMetricsPort pod pool port) ∧
    (∀ pod pod' : Pod, ∀ idx idx', createEndpointNamespacedName pod.key idx = createEndpointNamespacedName pod'.key idx' →
      pod.key = pod'.key ∧ idx = idx') ∧
    ∀ name, name ∈ ds.pods → name ∉ ds'.pods →
      (({ ds with pool := some pool } : Store).resyncCalls pool (matching pool cluster)).count (.release name) = 1 := by
  intro ds'
  have hc := consistent_of_reaches h₀ hs
  have hds' : ds' = ({ ds with pool := some pool } : Store).resync pool (matching pool cluster) := by
    rcases poolSet_cases ds cluster failure pool with ⟨-, -, he⟩ | ⟨e, -, -, he⟩ | ⟨hn, -⟩
    · exact congrArg Prod.fst he
    · rw [he] at hnil
      cases hnil
    · rw [hn] at hneeds
      cases hneeds
  have hsteady : Steady ds.modelServerMetricsPort { ds with pool := some pool } := ⟨hc, rfl⟩
  obtain ⟨-, hstores⟩ := resync_spec pool cluster (hc.withPool (some pool))
  rw [← hds'] at hstores
  obtain ⟨⟨-, hport⟩, haccounts⟩ := resync_accounts pool (matching pool cluster) hsteady
  rw [← hds'] at hport haccounts
  have hlookup : ∀ name metadata, ds'.pods.lookup name = some metadata ↔
      ∃ pod ∈ readyPods pool cluster, ∃ idx, name = createEndpointNamespacedName pod.key idx ∧
        prescribes ds.modelServerMetricsPort pool pod idx = some metadata := by
    intro name metadata
    rw [hstores name metadata, hport, Prescribed]
    constructor
    · rintro ⟨pod, hpod, hns, hsel, hready, h⟩
      exact ⟨pod, mem_readyPods.mpr ⟨hpod, hns, hsel, hready⟩, h⟩
    · rintro ⟨pod, hpod, h⟩
      obtain ⟨hpod, hns, hsel, hready⟩ := mem_readyPods.mp hpod
      exact ⟨pod, hpod, hns, hsel, hready, h⟩
  refine ⟨fun name metadata => ?_, fun pod pod' idx idx' h => createEndpointNamespacedName_inj h, ?_⟩
  · rw [hlookup]
    refine exists_congr fun pod => and_congr_right fun _ => exists_congr fun idx => ?_
    rw [prescribes, Option.bind_eq_some_iff]
    constructor
    · rintro ⟨hname, port, hp, hm⟩
      split at hm
      · next hactive =>
        cases hm
        exact ⟨port, hp, (mem_extractActivePorts (List.mem_of_getElem? hp)).mp hactive, hname, rfl, rfl, rfl⟩
      · cases hm
    · rintro ⟨port, hp, hactive, hname, -, -, rfl⟩
      exact ⟨hname, port, hp, by rw [if_pos ((mem_extractActivePorts (List.mem_of_getElem? hp)).mpr hactive)]⟩
  · intro name hin hgone
    have hacc := haccounts name
    have hnew : (({ ds with pool := some pool } : Store).resyncCalls pool (matching pool cluster)).count (.new name) = 0 := by
      refine List.count_eq_zero.mpr fun hmem => hgone ?_
      obtain ⟨pod, hpod, idx, hname, hsome⟩ := prescribes_of_new hsteady hmem
      obtain ⟨metadata, hm⟩ := Option.isSome_iff_exists.mp hsome
      have := (hlookup name metadata).mpr ⟨pod, hpod, idx, hname, hm⟩
      exact AList.lookup_isSome.mp (by rw [this]; rfl)
    simp only [present, hgone, hnew] at hacc
    have hin' : name ∈ ({ ds with pool := some pool } : Store).pods := hin
    rw [if_pos hin'] at hacc
    simpa using hacc

/-- The sample pod with one of its two ports active. -/
def annotatedPod : Pod :=
  { samplePod with annotations := (∅ : Labels).insert activePortsAnnotation "8001".toList }

theorem annotatedPod_nodup : ([annotatedPod].map Pod.key).Nodup := List.nodup_singleton _

def annotatedCluster : Cluster := ⟨[annotatedPod], annotatedPod_nodup⟩

theorem annotatedPod_active {port : Int} : annotatedPod.Active port ↔ port = 8001 := by
  have hlookup : annotatedPod.annotations.lookup activePortsAnnotation = some "8001".toList := AList.lookup_insert _
  have hsplit : "8001".toList.splitOn ',' = ["8001".toList] := by decide
  have hscan : scanDecimal (trimSpace "8001".toList) = some 8001 := by decide +kernel
  simp only [Pod.Active, hlookup, Option.some.injEq, forall_eq', hsplit, List.mem_singleton, exists_eq_left, hscan]
  omega

/-- Of the two places the second is stored, with its pod's address and its port. -/
theorem resync_exact_annotated : ∃ ds, (fresh.poolSet annotatedCluster none (some (samplePool [8000, 8001]))).1 = ds ∧
    (∃ metadata, ds.pods.lookup ⟨"default".toList, "vllm-0-rank-1".toList⟩ = some metadata ∧
      metadata.address = "10.0.0.1".toList ∧ metadata.port = "8001".toList) ∧
    ds.pods.lookup ⟨"default".toList, "vllm-0-rank-0".toList⟩ = none := by
  obtain ⟨hexact, hinj, -⟩ := resync_exact fresh_consistent .init annotatedCluster none (samplePool [8000, 8001]) rfl rfl
  have hready : annotatedPod ∈ readyPods (samplePool [8000, 8001]) annotatedCluster :=
    mem_readyPods.mpr ⟨List.mem_singleton.mpr rfl, rfl, rfl, by decide +kernel⟩
  refine ⟨_, rfl, ⟨_, (hexact _ _).mpr ⟨annotatedPod, hready, 1, 8001, rfl, annotatedPod_active.mpr rfl, by decide +kernel,
    rfl, rfl, rfl⟩, by decide +kernel, by decide +kernel⟩, Option.eq_none_iff_forall_ne_some.mpr fun metadata hlookup => ?_⟩
  obtain ⟨pod, hpod, idx, port, hport, hactive, hname, -⟩ := (hexact _ _).mp hlookup
  have hpod : pod = annotatedPod := List.mem_singleton.mp (mem_readyPods.mp hpod).1
  subst hpod
  obtain ⟨-, hidx⟩ := hinj annotatedPod annotatedPod 0 idx hname
  subst hidx
  cases hport
  exact absurd (annotatedPod_active.mp hactive) (by decide)

end InferenceScheduler.Datastore.Store
