/-
Pods, pools and the endpoints a pool prescribes for a pod
(`datastore/datastore.go`, `datalayer/endpoint_pool.go`, `util/pod/pod.go`): one
for each target port that is active on the pod, named after the pod and the
place of the port.
-/
import InferenceScheduler.Lib.Json
import InferenceScheduler.Lib.Text
import Mathlib.Data.List.AList

namespace InferenceScheduler.Datastore

/-! ## Pods and pools -/

/-- `types.NamespacedName`. -/
structure NamespacedName where
  ns : Text
  name : Text
  deriving Repr, DecidableEq

/-- `map[string]string`. -/
abbrev Labels := AList fun _ : Text => Text

/-- Maps are compared by their entries, so that a comparison can be evaluated. -/
instance : DecidableEq Labels := fun a b => decidable_of_iff (a.entries = b.entries) AList.ext_iff.symm

/-- The part of a `corev1.Pod` that is read. `deleted`: the deletion timestamp is
set; a condition is its type and its status. -/
structure Pod where
  ns : Text
  name : Text
  podIP : Text
  labels : Labels
  annotations : Labels
  deleted : Bool
  conditions : List (Text × Text)
  deriving DecidableEq

/-- `datalayer.EndpointPool`. -/
structure EndpointPool where
  selector : Labels
  targetPorts : List Int
  ns : Text
  name : Text
  deriving DecidableEq

def Pod.key (pod : Pod) : NamespacedName := ⟨pod.ns, pod.name⟩

/-- The first `Ready` condition decides. -/
def readyCondition : List (Text × Text) → Bool
  | [] => false
  | (type, status) :: conditions =>
    if type = "Ready".toList then status = "True".toList else readyCondition conditions

/-- `podutil.IsPodReady`. -/
def isPodReady (pod : Pod) : Bool := ¬ pod.deleted && readyCondition pod.conditions

/-- `labels.SelectorFromSet(selector).Matches(labels)`. -/
def selectorMatches (selector labels : Labels) : Bool :=
  selector.entries.all fun entry => labels.lookup entry.1 = some entry.2

/-- `labels.Equals`. -/
def labelsEqual (a b : Labels) : Bool :=
  a.entries.length = b.entries.length && a.entries.all fun entry => b.lookup entry.1 = some entry.2

/-! ## Endpoints -/

/-- The endpoint's `EndpointMetadata`, without the name it is stored under. -/
structure Metadata where
  podName : Text
  address : Text
  port : Text
  metricsHost : Text
  labels : Labels
  deriving DecidableEq

def activePortsAnnotation : Text := "inference.networking.k8s.io/active-ports".toList

def extractActivePorts (pod : Pod) (targetPorts : List Int) : List Int :=
  match pod.annotations.lookup activePortsAnnotation with
  | none => targetPorts
  | some portsAnnotation =>
    ( portsAnnotation.splitOn ',').filterMap fun portStr =>
      (scanDecimal (trimSpace portStr)).filter fun portNum => 0 < portNum ∧ portNum ∈ targetPorts

/-- A target port is active on a pod without the annotation, or one that names it there. -/
def Pod.Active (pod : Pod) (port : Int) : Prop :=
  ∀ portsAnnotation, pod.annotations.lookup activePortsAnnotation = some portsAnnotation →
    0 < port ∧ ∃ portStr ∈ portsAnnotation.splitOn ',', scanDecimal (trimSpace portStr) = some port

theorem mem_extractActivePorts {pod : Pod} {targetPorts : List Int} {port : Int} (hport : port ∈ targetPorts) :
    port ∈ extractActivePorts pod targetPorts ↔ pod.Active port := by
  unfold extractActivePorts Pod.Active
  cases pod.annotations.lookup activePortsAnnotation with
  | none => simp [hport]
  | some portsAnnotation =>
    simp only [List.mem_filterMap, Option.filter_eq_some_iff, decide_eq_true_eq, Option.some.injEq, forall_eq']
    constructor
    · rintro ⟨portStr, hmem, hscan, hpos, -⟩
      exact ⟨hpos, portStr, hmem, hscan⟩
    · rintro ⟨hpos, portStr, hmem, hscan⟩
      exact ⟨portStr, hmem, hscan, hpos, hport⟩

def createEndpointNamespacedName (pod : NamespacedName) (idx : Nat) : NamespacedName :=
  ⟨pod.ns, pod.name ++ "-rank-".toList ++ Nat.toDigits 10 idx⟩

/-- `strconv.Itoa`. -/
def itoa (n : Int) : Text := if n < 0 then '-' :: Nat.toDigits 10 n.natAbs else Nat.toDigits 10 n.natAbs

/-- The metadata of a pod's endpoint for a target port. -/
def endpointMetadata (modelServerMetricsPort : Int) (pod : Pod) (pool : EndpointPool) (port : Int) : Metadata :=
  let metricsPort := if pool.targetPorts.length = 1 then modelServerMetricsPort else 0
  let metricsPort := if metricsPort = 0 then port else metricsPort
  { podName := pod.name
    address := pod.podIP
    port := itoa port
    metricsHost := joinHostPort pod.podIP (itoa metricsPort)
    labels := pod.labels }

/-- The endpoint a pool prescribes for a pod at a place of its target ports. -/
def prescribes (modelServerMetricsPort : Int) (pool : EndpointPool) (pod : Pod) (idx : Nat) : Option Metadata :=
  pool.targetPorts[idx]?.bind fun port =>
    if port ∈ extractActivePorts pod pool.targetPorts then
      some (endpointMetadata modelServerMetricsPort pod pool port)
    else none

/-- `selectorChanged || targetPortsChanged`. -/
def resyncNeeded (oldEndpointPool : Option EndpointPool) (endpointPool : EndpointPool) : Bool :=
  match oldEndpointPool with
  | none => true
  | some old => ¬ labelsEqual old.selector endpointPool.selector || old.targetPorts ≠ endpointPool.targetPorts

theorem prescribes_lt {port : Int} {pool : EndpointPool} {pod : Pod} {idx : Nat} {metadata : Metadata}
    (h : prescribes port pool pod idx = some metadata) : idx < pool.targetPorts.length := by
  obtain ⟨p, hp, -⟩ := Option.bind_eq_some_iff.mp h
  exact (List.getElem?_eq_some_iff.mp hp).1

/-! ## Names -/

theorem rank_name (name : Text) (idx : Nat) :
    name ++ "-rank-".toList ++ Nat.toDigits 10 idx = (name ++ "-rank".toList) ++ '-' :: Nat.toDigits 10 idx := by
  simp

theorem hyphen_notMem_toDigits (n : Nat) : '-' ∉ Nat.toDigits 10 n := by
  intro h
  have hd := Nat.isDigit_of_mem_toDigits (by decide) (by decide) h
  cases hd

theorem createEndpointNamespacedName_inj {k k' : NamespacedName} {i j : Nat}
    (h : createEndpointNamespacedName k i = createEndpointNamespacedName k' j) : k = k' ∧ i = j := by
  obtain ⟨hns, hname⟩ := NamespacedName.mk.inj h
  rw [rank_name, rank_name] at hname
  have hcut := congrArg (cutLast '-') hname
  rw [cutLast_append_cons (hyphen_notMem_toDigits i), cutLast_append_cons (hyphen_notMem_toDigits j)] at hcut
  obtain ⟨hn, hd⟩ := Prod.mk.inj (Option.some.inj hcut)
  refine ⟨?_, ?_⟩
  · cases k
    cases k'
    simp only [NamespacedName.mk.injEq] at hns ⊢
    exact ⟨hns, List.append_cancel_right hn⟩
  · rw [← Nat.ofDigitChars_ten_toDigits (n := i), hd, Nat.ofDigitChars_ten_toDigits]

end InferenceScheduler.Datastore
