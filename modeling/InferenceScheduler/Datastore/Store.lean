/-
The datastore's pool and endpoints (`datastore/datastore.go`), one call at a
time: `PoolSet` with its resync, and the pod updates the resync is made of.

`PoolSet` stores the new pool before it resyncs, and resyncs only if it differs
from the stored one. When the listing of the pods fails, the new pool is already
stored, so the retry returns nil without a resync.
-/
import InferenceScheduler.Datastore.Endpoints

namespace InferenceScheduler.Datastore

/-- If `polling`, a collector runs for each endpoint. -/
structure Store where
  pool : Option EndpointPool
  pods : AList fun _ : NamespacedName => Metadata
  collectors : List NamespacedName
  polling : Bool
  modelServerMetricsPort : Int

/-! ## The cluster -/

/-- The pods of the cluster, with distinct names. -/
structure Cluster where
  pods : List Pod
  nodup : (pods.map Pod.key).Nodup

/-- `reader.List`: the pods of a namespace whose labels match, or an error. -/
def list (cluster : Cluster) (failure : Option String) (selector : Labels) (ns : Text) :
    Except String (List Pod) :=
  match failure with
  | some e => .error e
  | none => .ok (cluster.pods.filter fun pod => pod.ns = ns && selectorMatches selector pod.labels)

namespace Store

variable (ds : Store)

/-! ## The endpoint factory -/

/-- `Runtime.NewEndpoint`. -/
def newEndpoint (name : NamespacedName) : Option Store :=
  if ds.polling then
    if name ∈ ds.collectors then none else some { ds with collectors := name :: ds.collectors }
  else some ds

/-- `Runtime.ReleaseEndpoint`. -/
def releaseEndpoint (name : NamespacedName) : Store :=
  { ds with collectors := ds.collectors.filter (· ≠ name) }

/-! ## Pods -/

/-- The loop body over the endpoints of the active ports. -/
def syncEndpoint (name : NamespacedName) (metadata : Metadata) : Store :=
  if name ∈ ds.pods then { ds with pods := ds.pods.insert name metadata }
  else
    match ds.newEndpoint name with
    | none => ds
    | some ds => { ds with pods := ds.pods.insert name metadata }

/-- `ds.pods.Delete` and `ReleaseEndpoint`, if the endpoint is there. -/
def dropEndpoint (name : NamespacedName) : Store :=
  if name ∈ ds.pods then { ds with pods := ds.pods.erase name }.releaseEndpoint name else ds

/-- One place of the target ports. The loops over the active ports and over the
others differ in the places they skip. -/
def syncActive (pool : EndpointPool) (pod : Pod) (idx : Nat) : Store :=
  match prescribes ds.modelServerMetricsPort pool pod idx with
  | some metadata => ds.syncEndpoint (createEndpointNamespacedName pod.key idx) metadata
  | none => ds

def dropInactive (pool : EndpointPool) (pod : Pod) (idx : Nat) : Store :=
  match prescribes ds.modelServerMetricsPort pool pod idx with
  | some _ => ds
  | none => ds.dropEndpoint (createEndpointNamespacedName pod.key idx)

def podUpdateOrAddIfNotExist (pod : Pod) (pool : EndpointPool) : Store :=
  let places := List.range pool.targetPorts.length
  let ds := places.foldl (fun ds idx => ds.syncActive pool pod idx) ds
  places.foldl (fun ds idx => ds.dropInactive pool pod idx) ds

/-- `podResyncAll`, after the pods are listed. -/
def resync (pool : EndpointPool) (podList : List Pod) : Store :=
  let ready := podList.filter isPodReady
  let active := ready.flatMap fun pod =>
    (List.range pool.targetPorts.length).map (createEndpointNamespacedName pod.key)
  let ds := ready.foldl (fun ds pod => ds.podUpdateOrAddIfNotExist pod pool) ds
  ds.pods.keys.foldl (fun ds name => if name ∈ active then ds else ds.dropEndpoint name) ds

/-! ## The pool -/

def clear : Store := { ds with pool := none, pods := ∅, collectors := ds.collectors.filter (· ∉ ds.pods.keys) }

/-- The new pool is not the stored one. -/
def needsResync (endpointPool : EndpointPool) : Bool := resyncNeeded ds.pool endpointPool

/-- `PoolSet`, with the error it returns. -/
def poolSet (cluster : Cluster) (failure : Option String) (endpointPool : Option EndpointPool) :
    Store × Option String :=
  match endpointPool with
  | none => (ds.clear, none)
  | some endpointPool =>
    let stored : Store := { ds with pool := some endpointPool }
    if ds.needsResync endpointPool then
      match list cluster failure endpointPool.selector endpointPool.ns with
      | .error e => (stored, some ("failed to update pods according to the pool selector - failed to list pods - " ++ e))
      | .ok podList => (stored.resync endpointPool podList, none)
    else (stored, none)

/-! ## What the calls write -/

/-- A collector runs exactly for the stored endpoints. -/
def Consistent : Prop := ds.polling = true → ∀ name, name ∈ ds.collectors ↔ name ∈ ds.pods

/-- Each name with `w name v` was set to `v` (`none`: removed), and nothing else changed. -/
structure Wrote (ds ds' : Store) (w : NamespacedName → Option Metadata → Prop) : Prop where
  pool : ds'.pool = ds.pool
  modelServerMetricsPort : ds'.modelServerMetricsPort = ds.modelServerMetricsPort
  consistent : ds'.Consistent
  written : ∀ name v, w name v → ds'.pods.lookup name = v
  kept : ∀ name, (∀ v, ¬ w name v) → ds'.pods.lookup name = ds.pods.lookup name

variable {ds} {ds' ds'' : Store} {w w' : NamespacedName → Option Metadata → Prop} {name : NamespacedName}

theorem Wrote.refl (h : ds.Consistent) : Wrote ds ds fun _ _ => False :=
  ⟨rfl, rfl, h, fun _ _ => False.elim, fun _ _ => rfl⟩

theorem Wrote.congr (h : Wrote ds ds' w) (hw : ∀ name v, w' name v ↔ w name v) : Wrote ds ds' w' := by
  have he : w' = w := funext fun name => funext fun v => propext (hw name v)
  rw [he]
  exact h

theorem Wrote.trans (h : Wrote ds ds' w) (h' : Wrote ds' ds'' w')
    (hagree : ∀ name u v, w name u → w' name v → u = v) :
    Wrote ds ds'' fun name v => w name v ∨ w' name v where
  pool := h'.pool.trans h.pool
  modelServerMetricsPort := h'.modelServerMetricsPort.trans h.modelServerMetricsPort
  consistent := h'.consistent
  written := by
    rintro name v (hw | hw)
    · by_cases hw' : ∃ u, w' name u
      · obtain ⟨u, hu⟩ := hw'
        rw [hagree name v u hw hu]
        exact h'.written name u hu
      · rw [h'.kept name fun u hu => hw' ⟨u, hu⟩]
        exact h.written name v hw
    · exact h'.written name v hw
  kept := by
    intro name hn
    rw [h'.kept name fun v hv => hn v (.inr hv), h.kept name fun v hv => hn v (.inl hv)]

theorem foldl_wrote {ι : Type} {f : Store → ι → Store} {w : ι → NamespacedName → Option Metadata → Prop} {port : Int}
    (hf : ∀ ds i, ds.Consistent → ds.modelServerMetricsPort = port → Wrote ds (f ds i) (w i)) :
    ∀ (l : List ι) (ds : Store), ds.Consistent → ds.modelServerMetricsPort = port →
      (∀ i ∈ l, ∀ j ∈ l, ∀ name u v, w i name u → w j name v → u = v) →
      Wrote ds (l.foldl f ds) fun name v => ∃ i ∈ l, w i name v
  | [], ds, h, _, _ => (Wrote.refl h).congr fun _ _ => by simp
  | i :: l, ds, h, hport, hagree => by
    have h₁ := hf ds i h hport
    have h₂ := foldl_wrote hf l (f ds i) h₁.consistent (h₁.modelServerMetricsPort.trans hport)
      fun j hj k hk => hagree j (List.mem_cons_of_mem _ hj) k (List.mem_cons_of_mem _ hk)
    refine (h₁.trans h₂ ?_).congr fun name v => by simp
    rintro name u v hu ⟨j, hj, hv⟩
    exact hagree i List.mem_cons_self j (List.mem_cons_of_mem _ hj) name u v hu hv

theorem syncEndpoint_wrote {metadata : Metadata} (h : ds.Consistent) :
    Wrote ds (ds.syncEndpoint name metadata) fun n v => n = name ∧ v = some metadata := by
  have hput : ∀ {d : Store}, d.pods = ds.pods → d.pool = ds.pool →
      d.modelServerMetricsPort = ds.modelServerMetricsPort →
      Consistent { d with pods := d.pods.insert name metadata } →
      Wrote ds { d with pods := d.pods.insert name metadata } fun n v => n = name ∧ v = some metadata := by
    intro d hpods hpool hport hc
    refine ⟨hpool, hport, hc, ?_, fun n hn => ?_⟩
    · rintro n v ⟨rfl, rfl⟩
      exact AList.lookup_insert _
    · rw [← hpods]
      exact AList.lookup_insert_ne fun he => hn _ ⟨he, rfl⟩
  unfold syncEndpoint
  split
  next hin =>
    refine hput rfl rfl rfl fun hp n => ?_
    rw [AList.mem_insert]
    exact (h hp n).trans ⟨.inr, fun hn => hn.elim (fun he => he ▸ hin) id⟩
  next hin =>
    unfold newEndpoint
    split
    next hnone =>
      split at hnone
      next hp =>
        split at hnone
        next hc => exact absurd ((h hp name).mp hc) hin
        · cases hnone
      · cases hnone
    next d hsome =>
      split at hsome
      next hp =>
        split at hsome
        · cases hsome
        · cases hsome
          refine hput rfl rfl rfl fun _ n => ?_
          rw [AList.mem_insert, List.mem_cons, h hp n]
      next hp =>
        cases hsome
        exact hput rfl rfl rfl fun hp' => absurd hp' hp

theorem dropEndpoint_wrote (h : ds.Consistent) :
    Wrote ds (ds.dropEndpoint name) fun n v => n = name ∧ v = none := by
  unfold dropEndpoint
  split
  · refine ⟨rfl, rfl, fun hp n => ?_, ?_, fun n hn => ?_⟩
    · simp only [releaseEndpoint, List.mem_filter, decide_eq_true_eq, AList.mem_erase]
      rw [and_comm, h hp n]
    · rintro n v ⟨rfl, rfl⟩
      exact AList.lookup_erase ..
    · exact AList.lookup_erase_ne fun he => hn _ ⟨he, rfl⟩
  next hin =>
    refine ⟨rfl, rfl, h, ?_, fun _ _ => rfl⟩
    rintro n v ⟨rfl, rfl⟩
    exact AList.lookup_eq_none.mpr hin

/-! ## A pod -/

variable {port : Int}

theorem syncActive_wrote (pool : EndpointPool) (pod : Pod) (idx : Nat) (h : ds.Consistent)
    (hport : ds.modelServerMetricsPort = port) :
    Wrote ds (ds.syncActive pool pod idx) fun n v =>
      (prescribes port pool pod idx).isSome ∧ n = createEndpointNamespacedName pod.key idx ∧
        v = prescribes port pool pod idx := by
  unfold syncActive
  rw [hport]
  cases hm : prescribes port pool pod idx with
  | none => exact (Wrote.refl h).congr fun _ _ => by simp
  | some metadata => exact (syncEndpoint_wrote h).congr fun _ _ => by simp

theorem dropInactive_wrote (pool : EndpointPool) (pod : Pod) (idx : Nat) (h : ds.Consistent)
    (hport : ds.modelServerMetricsPort = port) :
    Wrote ds (ds.dropInactive pool pod idx) fun n v =>
      (prescribes port pool pod idx).isNone ∧ n = createEndpointNamespacedName pod.key idx ∧
        v = prescribes port pool pod idx := by
  unfold dropInactive
  rw [hport]
  cases hm : prescribes port pool pod idx with
  | none => exact (dropEndpoint_wrote h).congr fun _ _ => by simp
  | some metadata => exact (Wrote.refl h).congr fun _ _ => by simp

theorem podUpdateOrAddIfNotExist_wrote (pool : EndpointPool) (pod : Pod) (h : ds.Consistent)
    (hport : ds.modelServerMetricsPort = port) :
    Wrote ds (ds.podUpdateOrAddIfNotExist pod pool) fun n v =>
      ∃ idx < pool.targetPorts.length, n = createEndpointNamespacedName pod.key idx ∧
        v = prescribes port pool pod idx := by
  have h₁ := foldl_wrote (fun ds idx h hport => syncActive_wrote pool pod idx h hport)
    (List.range pool.targetPorts.length) ds h hport (by
      rintro i - j - n u v ⟨-, rfl, rfl⟩ ⟨-, he, rfl⟩
      rw [(createEndpointNamespacedName_inj he).2])
  have h₂ := foldl_wrote (fun ds idx h hport => dropInactive_wrote pool pod idx h hport)
    (List.range pool.targetPorts.length) _ h₁.consistent (h₁.modelServerMetricsPort.trans hport) (by
      rintro i - j - n u v ⟨-, rfl, rfl⟩ ⟨-, he, rfl⟩
      rw [(createEndpointNamespacedName_inj he).2])
  refine (h₁.trans h₂ ?_).congr fun n v => ⟨?_, ?_⟩
  · rintro n u v ⟨i, -, -, rfl, rfl⟩ ⟨j, -, -, he, rfl⟩
    rw [(createEndpointNamespacedName_inj he).2]
  · rintro ⟨idx, hi, hn, hv⟩
    cases hm : prescribes port pool pod idx with
    | none => exact .inr ⟨idx, List.mem_range.mpr hi, by rw [hm]; rfl, hn, hv⟩
    | some m => exact .inl ⟨idx, List.mem_range.mpr hi, by rw [hm]; rfl, hn, hv⟩
  · rintro (⟨idx, hi, -, hn, hv⟩ | ⟨idx, hi, -, hn, hv⟩)
    · exact ⟨idx, List.mem_range.mp hi, hn, hv⟩
    · exact ⟨idx, List.mem_range.mp hi, hn, hv⟩

/-! ## The resync -/

/-- One endpoint for each active target port of each ready pod that matches. -/
def Prescribed (port : Int) (pool : EndpointPool) (cluster : Cluster) (name : NamespacedName) (metadata : Metadata) :
    Prop :=
  ∃ pod ∈ cluster.pods, pod.ns = pool.ns ∧ selectorMatches pool.selector pod.labels = true ∧ isPodReady pod = true ∧
    ∃ idx, name = createEndpointNamespacedName pod.key idx ∧ prescribes port pool pod idx = some metadata

/-- The stored endpoints are those of the pool, and nothing else. -/
def Stores (ds : Store) (pool : EndpointPool) (cluster : Cluster) : Prop :=
  ∀ name metadata, ds.pods.lookup name = some metadata ↔
    Prescribed ds.modelServerMetricsPort pool cluster name metadata

theorem eq_of_key {cluster : Cluster} {pod pod' : Pod} (h : pod ∈ cluster.pods) (h' : pod' ∈ cluster.pods)
    (he : pod.key = pod'.key) : pod = pod' := List.inj_on_of_nodup_map cluster.nodup h h' he

/-- What a resync lists. -/
def matching (pool : EndpointPool) (cluster : Cluster) : List Pod :=
  cluster.pods.filter fun pod => pod.ns = pool.ns && selectorMatches pool.selector pod.labels

/-- What it keeps of that. -/
def readyPods (pool : EndpointPool) (cluster : Cluster) : List Pod := (matching pool cluster).filter isPodReady

theorem mem_readyPods {pool : EndpointPool} {cluster : Cluster} {pod : Pod} :
    pod ∈ readyPods pool cluster ↔ pod ∈ cluster.pods ∧ pod.ns = pool.ns ∧
      selectorMatches pool.selector pod.labels = true ∧ isPodReady pod = true := by
  simp only [readyPods, matching, List.mem_filter, Bool.and_eq_true, decide_eq_true_eq, and_assoc]

theorem removeInactive_wrote (active : List NamespacedName) (h : ds.Consistent) (names : List NamespacedName) :
    Wrote ds (names.foldl (fun ds name => if name ∈ active then ds else ds.dropEndpoint name) ds) fun n v =>
      ∃ name ∈ names, name ∉ active ∧ n = name ∧ v = none := by
  refine foldl_wrote (fun ds name h _ => ?_) names ds h rfl ?_
  · split
    next ha => exact (Wrote.refl h).congr fun _ _ => by simp [ha]
    next ha => exact (dropEndpoint_wrote h).congr fun _ _ => by simp [ha]
  · rintro i - j - n u v ⟨-, -, rfl⟩ ⟨-, -, rfl⟩
    rfl

theorem resync_spec (pool : EndpointPool) (cluster : Cluster) (h : ds.Consistent) :
    (ds.resync pool (matching pool cluster)).Consistent ∧
      (ds.resync pool (matching pool cluster)).Stores pool cluster := by
  have h₁ := foldl_wrote (fun ds pod h hport => podUpdateOrAddIfNotExist_wrote pool pod h hport)
    (readyPods pool cluster) ds h rfl (by
      rintro pod hp pod' hp' n u v ⟨i, -, rfl, rfl⟩ ⟨j, -, he, rfl⟩
      obtain ⟨hk, rfl⟩ := createEndpointNamespacedName_inj he
      rw [eq_of_key (mem_readyPods.mp hp).1 (mem_readyPods.mp hp').1 hk])
  generalize hds₁ : (readyPods pool cluster).foldl (fun ds pod => ds.podUpdateOrAddIfNotExist pod pool) ds = ds₁ at h₁
  generalize hactive : (readyPods pool cluster).flatMap (fun pod =>
    (List.range pool.targetPorts.length).map (createEndpointNamespacedName pod.key)) = active
  have h₂ := removeInactive_wrote active h₁.consistent ds₁.pods.keys
  have hresync : ds.resync pool (matching pool cluster) =
      ds₁.pods.keys.foldl (fun ds name => if name ∈ active then ds else ds.dropEndpoint name) ds₁ := by
    rw [← hds₁, ← hactive]
    rfl
  rw [hresync]
  refine ⟨h₂.consistent, ?_⟩
  have hmem : ∀ name, name ∈ active ↔ ∃ pod ∈ readyPods pool cluster, ∃ idx < pool.targetPorts.length,
      name = createEndpointNamespacedName pod.key idx := by
    intro name
    simp only [← hactive, List.mem_flatMap, List.mem_map, List.mem_range, eq_comm]
  intro name metadata
  rw [h₂.modelServerMetricsPort, h₁.modelServerMetricsPort]
  by_cases hin : name ∈ active
  · -- the name belongs to a place of a ready pod
    obtain ⟨pod, hp, idx, hi, hname⟩ := (hmem name).mp hin
    obtain ⟨hpod, hns, hsel, hready⟩ := mem_readyPods.mp hp
    have hkept : ∀ v : Option Metadata, ¬ ∃ k ∈ ds₁.pods.keys, k ∉ active ∧ name = k ∧ v = none := by
      rintro v ⟨k, -, hk, rfl, -⟩
      exact hk hin
    rw [h₂.kept name hkept, h₁.written name _ ⟨pod, hp, idx, hi, hname, rfl⟩]
    constructor
    · exact fun hm => ⟨pod, hpod, hns, hsel, hready, idx, hname, hm⟩
    · rintro ⟨pod', hpod', -, -, -, idx', hname', hm⟩
      obtain ⟨hk, rfl⟩ := createEndpointNamespacedName_inj (hname.symm.trans hname')
      rwa [eq_of_key hpod hpod' hk]
  · refine iff_of_false (fun hl => ?_) ?_
    · -- a stored endpoint that is not active was removed
      by_cases hk : name ∈ ds₁.pods.keys
      · rw [h₂.written name none ⟨name, hk, hin, rfl, rfl⟩] at hl
        cases hl
      · have hkept : ∀ v : Option Metadata, ¬ ∃ k ∈ ds₁.pods.keys, k ∉ active ∧ name = k ∧ v = none := by
          rintro v ⟨k, hk', -, rfl, -⟩
          exact hk hk'
        rw [h₂.kept name hkept, AList.lookup_eq_none.mpr hk] at hl
        cases hl
    · rintro ⟨pod, hpod, hns, hsel, hready, idx, hname, hm⟩
      exact hin ((hmem name).mpr ⟨pod, mem_readyPods.mpr ⟨hpod, hns, hsel, hready⟩, idx, prescribes_lt hm, hname⟩)

/-! ## Sequences of calls -/

/-- The pods of the cluster, whether the listing fails, and the pool. -/
structure Call where
  cluster : Cluster
  failure : Option String
  pool : Option EndpointPool

/-- The datastore after a sequence of calls. -/
def poolSets (ds : Store) : List Call → Store
  | [] => ds
  | call :: calls => (ds.poolSet call.cluster call.failure call.pool).1.poolSets calls

theorem poolSet_cases (ds : Store) (cluster : Cluster) (failure : Option String) (pool : EndpointPool) :
    (ds.needsResync pool = true ∧ failure = none ∧ ds.poolSet cluster failure (some pool) =
      (({ ds with pool := some pool } : Store).resync pool (matching pool cluster), none)) ∨
    (∃ e, ds.needsResync pool = true ∧ failure = some e ∧ ds.poolSet cluster failure (some pool) =
      ({ ds with pool := some pool },
        some ("failed to update pods according to the pool selector - failed to list pods - " ++ e))) ∨
    (ds.needsResync pool = false ∧ ds.poolSet cluster failure (some pool) = ({ ds with pool := some pool }, none)) := by
  cases hn : ds.needsResync pool with
  | false => exact .inr (.inr ⟨rfl, by simp only [poolSet, hn, Bool.false_eq_true, if_false]⟩)
  | true =>
    cases failure with
    | none => exact .inl ⟨rfl, rfl, by simp only [poolSet, hn, if_true, list, matching]⟩
    | some e => exact .inr (.inl ⟨e, rfl, rfl, by simp only [poolSet, hn, if_true, list]⟩)

theorem Consistent.withPool (h : ds.Consistent) (pool : Option EndpointPool) :
    Consistent { ds with pool := pool } := h

theorem Consistent.clear (h : ds.Consistent) : ds.clear.Consistent := by
  intro hp name
  simp only [Store.clear, List.mem_filter, decide_eq_true_eq, ← AList.mem_keys, h hp name]
  exact iff_of_false (fun hn => hn.2 hn.1) (AList.notMem_empty name)

theorem Consistent.poolSet (h : ds.Consistent) (cluster : Cluster) (failure : Option String) :
    ∀ pool : Option EndpointPool, (ds.poolSet cluster failure pool).1.Consistent
  | none => h.clear
  | some pool => by
    rcases poolSet_cases ds cluster failure pool with ⟨-, -, he⟩ | ⟨e, -, -, he⟩ | ⟨-, he⟩
    · rw [he]
      exact (resync_spec pool cluster (h.withPool (some pool))).1
    · rw [he]
      exact h.withPool (some pool)
    · rw [he]
      exact h.withPool (some pool)

theorem Consistent.poolSets (h : ds.Consistent) (calls : List Call) : (ds.poolSets calls).Consistent := by
  induction calls generalizing ds with
  | nil => exact h
  | cons call calls ih => exact ih (h.poolSet call.cluster call.failure call.pool)

/-- **After any sequence of calls, a `PoolSet` that returns nil has left the
endpoints of its pool just in case the pool's selector or target ports were
not those already stored, or the endpoints were already there.** -/
theorem poolSet_stores_iff (ds : Store) (h : ds.Consistent) (calls : List Call) (cluster : Cluster)
    (failure : Option String) (pool : EndpointPool)
    (hnil : ((ds.poolSets calls).poolSet cluster failure (some pool)).2 = none) :
    ((ds.poolSets calls).poolSet cluster failure (some pool)).1.Stores pool cluster ↔
      (ds.poolSets calls).needsResync pool = true ∨ (ds.poolSets calls).Stores pool cluster := by
  have hc := h.poolSets calls
  rcases poolSet_cases (ds.poolSets calls) cluster failure pool with ⟨hn, -, he⟩ | ⟨e, -, -, he⟩ | ⟨hn, he⟩
  · rw [he]
    exact iff_of_true (resync_spec pool cluster (hc.withPool (some pool))).2 (.inl hn)
  · rw [he] at hnil
    cases hnil
  · rw [he, hn]
    exact ⟨.inr, fun hs => hs.elim (nofun) id⟩

/-! ## A failed listing -/

/-- A datastore before the pool is known. -/
def fresh : Store := { pool := none, pods := ∅, collectors := [], polling := true, modelServerMetricsPort := 0 }

theorem fresh_consistent : fresh.Consistent := by
  intro _ name
  simp only [fresh, List.not_mem_nil, false_iff]
  exact AList.notMem_empty name

def samplePod : Pod where
  ns := "default".toList
  name := "vllm-0".toList
  podIP := "10.0.0.1".toList
  labels := ∅
  annotations := ∅
  deleted := false
  conditions := [("Ready".toList, "True".toList)]

theorem samplePods_nodup : ([samplePod].map Pod.key).Nodup := List.nodup_singleton _

def sampleCluster : Cluster := ⟨[samplePod], samplePods_nodup⟩

/-- A pool over all pods of the namespace. -/
def samplePool (targetPorts : List Int) : EndpointPool where
  selector := ∅
  targetPorts := targetPorts
  ns := "default".toList
  name := "pool".toList

theorem prescribed_sample : Prescribed 0 (samplePool [8000]) sampleCluster
    (createEndpointNamespacedName samplePod.key 0) (endpointMetadata 0 samplePod (samplePool [8000]) 8000) :=
  ⟨samplePod, List.mem_singleton.mpr rfl, rfl, rfl, by decide +kernel, 0, rfl, rfl⟩

/-- After a failed call for another port, the call for this one resyncs. -/
theorem poolSet_stores_after_change :
    ((fresh.poolSets [⟨sampleCluster, some "timeout", some (samplePool [9000])⟩]).poolSet sampleCluster none
      (some (samplePool [8000]))).1.Stores (samplePool [8000]) sampleCluster :=
  (poolSet_stores_iff fresh fresh_consistent _ sampleCluster none (samplePool [8000]) (by decide +kernel)).mpr
    (.inl (by decide +kernel))

/-- The listing fails, the retry returns nil, and the ready pod has no
endpoint. -/
theorem retry_skips_resync :
    (fresh.poolSet sampleCluster (some "timeout") (some (samplePool [8000]))).2 =
        some "failed to update pods according to the pool selector - failed to list pods - timeout" ∧
      ((fresh.poolSets [⟨sampleCluster, some "timeout", some (samplePool [8000])⟩]).poolSet sampleCluster none
        (some (samplePool [8000]))).2 = none ∧
      ¬ ((fresh.poolSets [⟨sampleCluster, some "timeout", some (samplePool [8000])⟩]).poolSet sampleCluster none
        (some (samplePool [8000]))).1.Stores (samplePool [8000]) sampleCluster := by
  refine ⟨by decide +kernel, by decide +kernel, fun h => ?_⟩
  have hl := (h _ _).mpr prescribed_sample
  revert hl
  decide +kernel

end Store

end InferenceScheduler.Datastore
