/-
The pod reconciler (`controller/pod_reconciler.go`) and the datastore it keeps
up to date between two changes of the pool. Pods change at any time, also while
one is being reconciled; a change that passes the event filter puts the pod's
name on the work queue of the one worker. The manager's cache has the pods of
the pool's namespace only (`server/controller_manager.go`).
-/
import InferenceScheduler.Datastore.Resync

namespace InferenceScheduler.Datastore.Store

open Function (update update_of_ne update_self)

/-! ## The reconciler -/

def poolLabelsMatch (ds : Store) (labels : Labels) : Bool := ds.pool.any fun pool => selectorMatches pool.selector labels

/-- `PodReconciler.updateDatastore`. -/
def updateDatastore (ds : Store) (pod : Pod) : Store :=
  if !isPodReady pod || !ds.poolLabelsMatch pod.labels then ds.podDelete pod.name
  else
    match ds.pool with
    | none => ds
    | some pool => ds.podUpdateOrAddIfNotExist pod pool

/-- `PodReconciler.Reconcile` with the pod that `Get` finds. -/
def reconcile (ds : Store) (name : Text) (pod : Option Pod) : Store :=
  if ds.pool.isNone then ds
  else
    match pod with
    | none => ds.podDelete name
    | some pod => ds.updateDatastore pod

/-- The event filter, with the pod before and after the event. -/
def passes (ds : Store) (old new : Option Pod) : Bool :=
  old.any (ds.poolLabelsMatch ·.labels) || new.any (ds.poolLabelsMatch ·.labels)

/-- The pods of the namespace, the work queue, what its worker has read and not
yet written, and the datastore. -/
structure Watch where
  pods : Text → Option Pod
  queue : List Text
  worker : Option (Text × Option Pod)
  store : Store

inductive Watch.Label
  | change (name : Text) (pod : Option Pod)
  | get (name : Text) (again : Bool)
  | write

/-- One step. A name stays on the queue (`again`) if the pod changed after the
name was taken and before it was read; a `Get` that fails changes nothing. -/
def Watch.step (ns : Text) (x : Watch) : Watch.Label → Option Watch
  | .change name pod =>
    if pod.all (·.key = ⟨ns, name⟩) then
      some { x with
        pods := update x.pods name pod
        queue := if x.store.passes (x.pods name) pod then name :: x.queue else x.queue }
    else none
  | .get name again =>
    if x.worker.isNone && name ∈ x.queue then
      some { x with
        queue := if again then x.queue else x.queue.filter (· ≠ name)
        worker := some (name, x.pods name) }
    else none
  | .write => x.worker.map fun w => { x with worker := none, store := x.store.reconcile w.1 w.2 }

/-! ## What a reconciliation writes -/

/-- The name of a pod's endpoint. -/
def place (pool : EndpointPool) (name : Text) (idx : Nat) : NamespacedName :=
  createEndpointNamespacedName ⟨pool.ns, name⟩ idx

theorem place_inj {pool : EndpointPool} {name name' : Text} {idx idx' : Nat}
    (h : place pool name idx = place pool name' idx') : name = name' ∧ idx = idx' :=
  (createEndpointNamespacedName_inj h).imp_left (congrArg NamespacedName.name)

section

variable (port : Int) (pool : EndpointPool)

/-- The endpoints a pod should have, by the places of the target ports. -/
def wanted (pod : Option Pod) (idx : Nat) : Option Metadata :=
  (pod.filter fun pod => isPodReady pod && selectorMatches pool.selector pod.labels).bind (prescribes port pool · idx)

/-- The endpoints stored for a pod are the given ones. -/
def Has (ds : Store) (name : Text) (endpoints : Nat → Option Metadata) : Prop :=
  ∀ idx, ds.pods.lookup (place pool name idx) = endpoints idx

/-- Every endpoint is named after its pod and a place of the target ports. -/
structure Tidy (ds : Store) : Prop where
  hasPool : ds.pool = some pool
  hasPort : ds.modelServerMetricsPort = port
  consistent : ds.Consistent
  named : ∀ n m, ds.pods.lookup n = some m → ∃ idx < pool.targetPorts.length, n = place pool m.podName idx

/-- From `ds` to `ds'` a pod got the given endpoints and no other was touched. -/
structure Gave (ds ds' : Store) (name : Text) (endpoints : Nat → Option Metadata) : Prop where
  tidy : Tidy port pool ds'
  has : Has pool ds' name endpoints
  others : ∀ other e, other ≠ name → Has pool ds other e → Has pool ds' other e

end

variable {port : Int} {pool : EndpointPool} {ds : Store} {name : Text}

theorem foldl_delete_wrote (podName : Text) : ∀ (names : List NamespacedName) (ds : Store), ds.Consistent →
    Wrote ds (names.foldl (fun ds name =>
        if (ds.pods.lookup name).any (·.podName = podName) then ds.dropEndpoint name else ds) ds) fun n v =>
      n ∈ names ∧ (ds.pods.lookup n).any (·.podName = podName) ∧ v = none
  | [], ds, h => (Wrote.refl h).congr fun _ _ => by simp
  | name :: names, ds, h => by
    have h₁ : Wrote ds (if (ds.pods.lookup name).any (·.podName = podName) then ds.dropEndpoint name else ds) fun n v =>
        n = name ∧ (ds.pods.lookup n).any (·.podName = podName) ∧ v = none := by
      split
      · next hm => exact (dropEndpoint_wrote h).congr fun n v => ⟨fun hw => ⟨hw.1, hw.2.2⟩, fun hw => ⟨hw.1, hw.1 ▸ hm, hw.2⟩⟩
      · next hm => exact (Wrote.refl h).congr fun n v => ⟨fun hw => hm (hw.1 ▸ hw.2.1), False.elim⟩
    refine (h₁.trans (foldl_delete_wrote podName names _ h₁.consistent) ?_).congr fun n v => ?_
    · rintro n u v ⟨-, -, rfl⟩ ⟨-, -, rfl⟩
      rfl
    · by_cases hn : n = name ∧ (ds.pods.lookup n).any (·.podName = podName) = true
      · simp only [hn.1, hn.1 ▸ hn.2, List.mem_cons]
        tauto
      · rw [h₁.kept n fun v hv => hn ⟨hv.1, hv.2.1⟩, List.mem_cons]
        tauto

theorem Wrote.gave {ds' : Store} {endpoints : Nat → Option Metadata} {P : Nat → Prop} (h : Tidy port pool ds)
    (hw : Wrote ds ds' fun n v => ∃ idx, n = place pool name idx ∧ P idx ∧ v = endpoints idx)
    (hskip : ∀ idx, ¬ P idx → ds.pods.lookup (place pool name idx) = none ∧ endpoints idx = none)
    (hsome : ∀ idx m, endpoints idx = some m → idx < pool.targetPorts.length ∧ m.podName = name) :
    Gave port pool ds ds' name endpoints where
  tidy := by
    refine ⟨hw.pool.trans h.hasPool, hw.modelServerMetricsPort.trans h.hasPort, hw.consistent, fun n m hm => ?_⟩
    by_cases hn : ∃ idx, n = place pool name idx ∧ P idx
    · obtain ⟨idx, hidx, hP⟩ := hn
      obtain ⟨hlt, hpod⟩ := hsome idx m ((hw.written n _ ⟨idx, hidx, hP, rfl⟩).symm.trans hm)
      exact ⟨idx, hlt, hpod ▸ hidx⟩
    · refine h.named n m ((hw.kept n ?_).symm.trans hm)
      rintro v ⟨idx, hidx, hP, -⟩
      exact hn ⟨idx, hidx, hP⟩
  has idx := by
    by_cases hP : P idx
    · exact hw.written _ _ ⟨idx, rfl, hP, rfl⟩
    · obtain ⟨hnone, he⟩ := hskip idx hP
      rw [hw.kept, hnone, he]
      rintro v ⟨j, hj, hPj, -⟩
      exact hP ((place_inj hj).2 ▸ hPj)
  others other _ hne ho idx := by
    rw [hw.kept, ho idx]
    rintro v ⟨j, hj, -⟩
    exact hne (place_inj hj).1

theorem podDelete_gave (h : Tidy port pool ds) (name : Text) :
    Gave port pool ds (ds.podDelete name) name fun _ => none := by
  refine Wrote.gave (P := fun idx => (ds.pods.lookup (place pool name idx)).isSome) h
    ((foldl_delete_wrote name ds.pods.keys ds h.consistent).congr fun n v => ⟨?_, ?_⟩)
    (fun idx hnone => ⟨by simpa using hnone, rfl⟩) nofun
  · rintro ⟨idx, rfl, hin, rfl⟩
    obtain ⟨m, hm⟩ := Option.isSome_iff_exists.mp hin
    obtain ⟨j, -, hj⟩ := h.named _ m hm
    exact ⟨AList.mem_keys.mp (AList.lookup_isSome.mp hin), by simpa [hm] using (place_inj hj).1.symm, rfl⟩
  · rintro ⟨-, hany, rfl⟩
    obtain ⟨m, hm, hpod⟩ := (Option.any_eq_true ..).mp hany
    obtain ⟨idx, -, rfl⟩ := h.named n m hm
    rw [of_decide_eq_true hpod] at hm ⊢
    exact ⟨idx, rfl, by rw [hm]; rfl, rfl⟩

theorem podName_of_prescribes {pod : Pod} {idx : Nat} {m : Metadata} (hm : prescribes port pool pod idx = some m) :
    m.podName = pod.name := by
  obtain ⟨p, -, hp⟩ := Option.bind_eq_some_iff.mp hm
  split at hp
  · cases hp
    rfl
  · cases hp

theorem podUpdate_gave (h : Tidy port pool ds) {pod : Pod} (hkey : pod.key = ⟨pool.ns, name⟩) :
    Gave port pool ds (ds.podUpdateOrAddIfNotExist pod pool) name (prescribes port pool pod) := by
  refine Wrote.gave (P := (· < pool.targetPorts.length)) h
    ((podUpdateOrAddIfNotExist_wrote pool pod h.consistent h.hasPort).congr fun n v => ?_) (fun idx hge => ⟨?_, ?_⟩)
    fun idx m hm => ⟨prescribes_lt hm, (podName_of_prescribes hm).trans (congrArg NamespacedName.name hkey)⟩
  · rw [hkey]
    exact exists_congr fun idx => and_left_comm
  · refine Option.eq_none_iff_forall_ne_some.mpr fun m hm => hge ?_
    obtain ⟨j, hlt, hj⟩ := h.named _ m hm
    exact (place_inj hj).2 ▸ hlt
  · exact Option.eq_none_iff_forall_ne_some.mpr fun m hm => hge (prescribes_lt hm)

theorem wanted_some (pod : Pod) : wanted port pool (some pod) =
    if isPodReady pod && selectorMatches pool.selector pod.labels then prescribes port pool pod else fun _ => none := by
  funext idx
  rw [wanted, Option.filter_some]
  split <;> rfl

theorem reconcile_gave (h : Tidy port pool ds) {pod : Option Pod} (hkey : ∀ p ∈ pod, p.key = ⟨pool.ns, name⟩) :
    Gave port pool ds (ds.reconcile name pod) name (wanted port pool pod) := by
  cases pod with
  | none =>
    simp only [reconcile, h.hasPool, Option.isNone_some, Bool.false_eq_true, if_false]
    exact podDelete_gave h name
  | some pod =>
    have hname : pod.name = name := congrArg NamespacedName.name (hkey pod rfl)
    simp only [reconcile, updateDatastore, poolLabelsMatch, h.hasPool, Option.isNone_some, Bool.false_eq_true, if_false,
      Option.any_some, hname, wanted_some, ← Bool.not_and, Bool.not_eq_true']
    cases isPodReady pod && selectorMatches pool.selector pod.labels with
    | true => exact podUpdate_gave h (hkey pod rfl)
    | false => exact podDelete_gave h name

/-! ## Runs -/

/-- Nothing is missing for a pod but what the worker is about to write. -/
def Settled (port : Int) (pool : EndpointPool) (x : Watch) (name : Text) : Prop :=
  match x.worker with
  | some (n, pod) =>
    if n = name then wanted port pool pod = wanted port pool (x.pods name)
    else Has pool x.store name (wanted port pool (x.pods name))
  | none => Has pool x.store name (wanted port pool (x.pods name))

/-- The pods that are not on the work queue are settled. -/
structure Watched (port : Int) (pool : EndpointPool) (x : Watch) : Prop where
  tidy : Tidy port pool x.store
  keys : ∀ name, ∀ pod ∈ x.pods name, pod.key = ⟨pool.ns, name⟩
  readKeys : ∀ w ∈ x.worker, ∀ pod ∈ w.2, pod.key = ⟨pool.ns, w.1⟩
  settled : ∀ name, name ∉ x.queue → Settled port pool x name

/-- A pod whose change the filter drops should have no endpoint, before and
after it. -/
theorem wanted_of_not_passes (h : Tidy port pool ds) {old new : Option Pod} (hp : ds.passes old new = false) :
    wanted port pool old = wanted port pool new := by
  have hnone : ∀ pod : Option Pod, pod.any (ds.poolLabelsMatch ·.labels) = false →
      wanted port pool pod = fun _ => none := by
    intro pod hpod
    cases pod with
    | none => rfl
    | some pod =>
      simp only [Option.any_some, poolLabelsMatch, h.hasPool] at hpod
      simp [wanted_some, hpod]
  obtain ⟨hold, hnew⟩ := Bool.or_eq_false_iff.mp hp
  rw [hnone old hold, hnone new hnew]

theorem watched_step {x x' : Watch} {l : Watch.Label} (h : Watched port pool x) (hs : x.step pool.ns l = some x') :
    Watched port pool x' := by
  cases l with
  | change name pod =>
    simp only [Watch.step, Option.ite_none_right_eq_some, Option.some.injEq] at hs
    obtain ⟨hkey, rfl⟩ := hs
    refine ⟨h.tidy, fun n => ?_, h.readKeys, fun n hn => ?_⟩
    · by_cases hne : n = name
      · subst hne
        dsimp only
        rw [update_self]
        rintro p rfl
        simpa using hkey
      · simpa [update_of_ne hne] using h.keys n
    · have hw : n ∉ x.queue ∧ wanted port pool (update x.pods name pod n) = wanted port pool (x.pods n) := by
        by_cases hne : n = name
        · subst hne
          rw [update_self]
          split at hn
          · exact absurd List.mem_cons_self hn
          · next hp => exact ⟨hn, (wanted_of_not_passes h.tidy (by simpa using hp)).symm⟩
        · rw [update_of_ne hne]
          refine ⟨fun hq => hn ?_, rfl⟩
          split
          · exact List.mem_cons_of_mem _ hq
          · exact hq
      have hset := h.settled n hw.1
      simpa only [Settled, hw.2] using hset
  | get name again =>
    simp only [Watch.step, Option.ite_none_right_eq_some, Option.some.injEq, Bool.and_eq_true,
      Option.isNone_iff_eq_none] at hs
    obtain ⟨⟨hidle, -⟩, rfl⟩ := hs
    refine ⟨h.tidy, h.keys, fun w hw => ?_, fun n hn => ?_⟩
    · cases hw
      exact h.keys name
    · simp only [Settled]
      split
      · next he => rw [he]
      · next hne =>
        have hset := h.settled n fun hq => hn (by
          split
          · exact hq
          · exact List.mem_filter.mpr ⟨hq, by simpa using Ne.symm hne⟩)
        rwa [Settled, hidle] at hset
  | write =>
    obtain ⟨⟨name, pod⟩, hread, rfl⟩ := Option.map_eq_some_iff.mp hs
    have hgave := reconcile_gave h.tidy (h.readKeys _ hread)
    refine ⟨hgave.tidy, h.keys, nofun, fun n hn => ?_⟩
    have hset := h.settled n hn
    simp only [Settled, hread] at hset ⊢
    split at hset
    · next he => exact hset ▸ he ▸ hgave.has
    · next he => exact hgave.others n _ (Ne.symm he) hset

/-- Every change has been written, and the pods are those of the cluster. -/
structure Rests (pool : EndpointPool) (cluster : Cluster) (x : Watch) : Prop where
  queue : x.queue = []
  worker : x.worker = none
  pods : ∀ name pod, x.pods name = some pod ↔ pod ∈ cluster.pods ∧ pod.key = ⟨pool.ns, name⟩

theorem Rests.prescribed_iff {cluster : Cluster} {x : Watch} (h : Rests pool cluster x) {idx : Nat} {m : Metadata} :
    Prescribed port pool cluster (place pool name idx) m ↔ wanted port pool (x.pods name) idx = some m := by
  simp only [wanted, Option.bind_eq_some_iff, Option.filter_eq_some_iff, Bool.and_eq_true, h.pods]
  constructor
  · rintro ⟨pod, hpod, -, hsel, hready, j, hname, hm⟩
    obtain ⟨hkey, rfl⟩ := createEndpointNamespacedName_inj hname
    exact ⟨pod, ⟨⟨hpod, hkey.symm⟩, hready, hsel⟩, hm⟩
  · rintro ⟨pod, ⟨⟨hpod, hkey⟩, hready, hsel⟩, hm⟩
    exact ⟨pod, hpod, congrArg NamespacedName.ns hkey, hsel, hready, idx, by rw [place, hkey], hm⟩

/-- **At rest, a resync has nothing to do.** From a datastore that has the
endpoints of its pool, however pods change and reconciliations interleave with
the changes: whenever the queue is empty and the worker idle, the datastore has
exactly the endpoints of the pods as they are, those a resync would store, and a
collector runs for each of them. -/
theorem at_rest_resynced {cluster₀ cluster : Cluster} {x₀ x : Watch} (h₀ : Rests pool cluster₀ x₀)
    (hpool : x₀.store.pool = some pool) (hc : x₀.store.Consistent) (hstores : x₀.store.Stores pool cluster₀)
    (hs : Reaches (Watch.step pool.ns) Any x₀ x) (h : Rests pool cluster x) :
    x.store.Consistent ∧ x.store.Stores pool cluster ∧
      ∀ name, x.store.pods.lookup name = (x.store.resync pool (matching pool cluster)).pods.lookup name := by
  have hw₀ : Watched x₀.store.modelServerMetricsPort pool x₀ := by
    refine ⟨⟨hpool, rfl, hc, fun n m hm => ?_⟩, fun name pod hp => ((h₀.pods name pod).mp hp).2, ?_, fun name _ => ?_⟩
    · obtain ⟨pod, -, hns, -, -, idx, rfl, hp⟩ := (hstores n m).mp hm
      refine ⟨idx, prescribes_lt hp, ?_⟩
      rw [place, podName_of_prescribes hp, ← hns, Pod.key]
    · rw [h₀.worker]
      exact nofun
    · rw [Settled, h₀.worker]
      exact fun idx => Option.ext fun m => (hstores _ m).trans h₀.prescribed_iff
  have hw := hs.invariant (Watched x₀.store.modelServerMetricsPort pool) hw₀ fun _ _ _ hi _ hstep => watched_step hi hstep
  have hhas : ∀ name, Has pool x.store name (wanted x₀.store.modelServerMetricsPort pool (x.pods name)) := by
    intro name
    have hset := hw.settled name (by rw [h.queue]; exact List.not_mem_nil)
    rwa [Settled, h.worker] at hset
  have hx : x.store.Stores pool cluster := by
    intro n m
    rw [hw.tidy.hasPort]
    constructor
    · intro hm
      obtain ⟨idx, -, rfl⟩ := hw.tidy.named n m hm
      exact h.prescribed_iff.mpr ((hhas _ idx).symm.trans hm)
    · intro hp
      obtain ⟨pod, -, hns, -, -, idx, rfl, -⟩ := id hp
      have hplace : createEndpointNamespacedName pod.key idx = place pool pod.name idx := by rw [place, ← hns, Pod.key]
      rw [hplace] at hp ⊢
      exact (hhas _ idx).trans (h.prescribed_iff.mp hp)
  have hport := (resync_accounts pool (matching pool cluster) ⟨hw.tidy.consistent, rfl⟩).1.2
  refine ⟨hw.tidy.consistent, hx, fun name => Option.ext fun m => (hx name m).trans ?_⟩
  rw [(resync_spec pool cluster hw.tidy.consistent).2 name m, hport]

/-- A resynced store and the one pod of its cluster. -/
def sampleWatch : Watch where
  pods := update (fun _ => none) samplePod.name (some samplePod)
  queue := []
  worker := none
  store := ({ fresh with pool := some (samplePool [8000]) } : Store).resync (samplePool [8000])
    (matching (samplePool [8000]) sampleCluster)

/-- The pod disappears and is reconciled: no endpoint is left. -/
theorem at_rest_resynced_deleted :
    (sampleWatch.store.reconcile samplePod.name none).Stores (samplePool [8000]) ⟨[], List.nodup_nil⟩ := by
  have hrun : run (Watch.step (samplePool [8000]).ns) sampleWatch
      [.change samplePod.name none, .get samplePod.name false, .write] = some
        ⟨update sampleWatch.pods samplePod.name none, [], none,
          sampleWatch.store.reconcile samplePod.name none⟩ := by
    rfl
  have hspec := resync_spec (samplePool [8000]) sampleCluster (fresh_consistent.withPool (some (samplePool [8000])))
  refine (at_rest_resynced ⟨rfl, rfl, fun name pod => ?_⟩ (by decide +kernel) hspec.1 hspec.2 (reaches_of_run hrun)
    ⟨rfl, rfl, fun name pod => ?_⟩).2.1
  · by_cases hn : name = samplePod.name
    · subst hn
      simp only [sampleWatch, update_self, Option.some.injEq, sampleCluster, List.mem_singleton]
      exact ⟨fun h => ⟨h.symm, h ▸ rfl⟩, fun h => h.1.symm⟩
    · simp only [sampleWatch, update_of_ne hn, sampleCluster, List.mem_singleton]
      refine iff_of_false (nofun) ?_
      rintro ⟨rfl, hkey⟩
      exact hn (congrArg NamespacedName.name hkey).symm
  · dsimp only [sampleWatch]
    rw [Function.update_idem]
    simp [Function.update_apply]

end InferenceScheduler.Datastore.Store
