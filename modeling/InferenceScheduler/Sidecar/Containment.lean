/-
A reverse proxy whose upstream fails while the body is copied panics
(`http.ErrAbortHandler`) if the request's context carries the HTTP server, and
only the server's own goroutine for the request recovers that by itself. The
prefill goroutine of SGLang recovers, and the encoders' requests have a context
of their own; the goroutine of `tryDecodeStreaming` does neither.
-/
import InferenceScheduler.Sidecar.Connectors

namespace InferenceScheduler.Sidecar

open SortedMap (put delete get?)

/-- `ServeHTTP` may panic. -/
def Call.panics : Call → Prop
  | .proxy _ req _ => req.server
  | _ => False

instance : DecidablePred Call.panics
  | .proxy _ req _ => inferInstanceAs (Decidable (req.server = true))
  | .answer _ | .inspect | .gather => inferInstanceAs (Decidable False)

/-! ## JSON texts and requests -/

section

variable {N : Type} {e : Env N} {m : Fields N}

theorem Env.unmarshalMap_marshalMap (h : Json.Canonical (.object m)) :
    e.unmarshalMap (e.marshalMap m) = some (some m) := by
  rw [Env.unmarshalMap, Env.marshalMap, Json.unmarshal_marshal h]

theorem Env.canonical_of_unmarshalMap {s : Text} (h : e.unmarshalMap s = some (some m)) :
    Json.Canonical (.object m) := by
  unfold Env.unmarshalMap at h
  split at h
  · cases h
  · rename_i m' hm
    cases h
    exact Json.canonical_of_unmarshal hm
  · cases h

theorem Env.streams_put {field : Text} {v : Json N} (h : requestFieldStream ≠ field) :
    e.streams (put field v m) = e.streams m := by
  rw [Env.streams, Env.streams, SortedMap.get?_put_of_ne h]

/-! ## What runs on the handler's goroutine -/

theorem contained_answer (calls : List WriterCall) : (answer calls).Contained Call.panics true :=
  ⟨fun h => h.elim, fun _ => trivial⟩

theorem contained_forward (upstream : Upstream) (req : OutRequest) : (forward upstream req).Contained Call.panics true :=
  ⟨fun _ => rfl, fun _ => trivial⟩

theorem Env.contained_decode (req : OutRequest) : (e.decode req).Contained Call.panics true := by
  unfold Env.decode
  split
  · rename_i p hp
    split_ifs at hp
    unfold Env.dataParallelHandler at hp
    dsimp only at hp
    split_ifs at hp with h₁ h₂
    · cases hp
      exact contained_forward _ _
    · cases hp
      exact contained_answer _
  · exact contained_forward _ _

theorem Env.contained_nixlAfterPrefill (r : HttpRequest) (original uuid : Text) (api : APIType) (m : Fields N)
    (pw : BufferedResponseWriter) : (e.nixlAfterPrefill r original uuid api m pw).Contained Call.panics true := by
  unfold Env.nixlAfterPrefill
  split_ifs
  · exact contained_forward _ _
  · exact contained_answer _
  · split
    · exact contained_answer _
    · exact e.contained_decode _

theorem Env.contained_runNIXLProtocolV2 (r : HttpRequest) (d : Draws) (hostPort : GoString) (api : APIType) :
    (e.runNIXLProtocolV2 r d hostPort api).Contained Call.panics true := by
  unfold Env.runNIXLProtocolV2
  split
  · exact contained_answer _
  · split
    · exact contained_answer _
    · exact contained_answer _
    · rfl
    · dsimp only
      split
      · exact contained_answer _
      · exact ⟨fun _ => rfl, fun _ => e.contained_nixlAfterPrefill ..⟩

theorem Env.contained_prefillThenDecode (r : HttpRequest) (hostPort : GoString) (request : Option (Fields N)) :
    (e.prefillThenDecode r hostPort request).Contained Call.panics true := by
  unfold Env.prefillThenDecode Env.prefill
  split
  · rfl
  · dsimp only
    split
    · exact contained_answer _
    · refine ⟨fun _ => rfl, fun response => ?_⟩
      dsimp only
      split_ifs
      · exact contained_answer _
      · exact contained_forward _ _

/-! ## The other goroutines -/

variable {next : Program}

theorem Env.contained_tryDecode {req : OutRequest} {request : Fields N} (hreq : req.server)
    (hnext : next.Contained Call.panics true) :
    (e.tryDecode req request next).Contained Call.panics true ↔ ¬e.streams request := by
  unfold Env.tryDecode
  split_ifs with h
  · refine ⟨fun hc => ?_, fun hn => absurd h hn⟩
    exact absurd (hc.1.1 hreq) Bool.false_ne_true
  · refine ⟨fun _ => h, fun _ => ⟨fun _ => rfl, fun response => ?_⟩⟩
    dsimp only
    split
    · exact hnext
    · exact contained_answer _

theorem Env.contained_runSGLangProtocol (r : HttpRequest) (d : Draws) (hostPort : GoString) :
    (e.runSGLangProtocol r d hostPort).Contained Call.panics true := by
  unfold Env.runSGLangProtocol
  split
  · exact contained_answer _
  · split
    · exact contained_answer _
    · dsimp only
      split
      · exact contained_answer _
      · exact ⟨⟨fun _ => rfl, fun _ => trivial⟩, contained_forward _ _⟩

theorem Env.contained_primeEncoder (request item : Fields N) (requestID : Text) (hostPort : GoString) (idx : Nat) :
    (e.primeEncoder request requestID hostPort item idx).Contained Call.panics false := by
  unfold Env.primeEncoder
  split
  · trivial
  · exact ⟨fun h => absurd h Bool.false_ne_true, fun _ => trivial⟩

theorem contained_foldr_go {α : Type} {children : List α} {child : α → Program}
    (h : ∀ x, (child x).Contained Call.panics false) :
    (children.foldr (fun x rest => .go false (child x) rest) next).Contained Call.panics true ↔
      next.Contained Call.panics true := by
  induction children with
  | nil => rfl
  | cons x children ih =>
    rw [List.foldr_cons, ← ih]
    exact ⟨fun hc => hc.2, fun hc => ⟨h x, hc⟩⟩

theorem Env.contained_fanoutEncoderPrimer {request : Fields N} {hostPorts : List GoString} {requestID : Text} :
    (e.fanoutEncoderPrimer request hostPorts requestID next).Contained Call.panics true ↔
      next.Contained Call.panics true := by
  unfold Env.fanoutEncoderPrimer
  dsimp only
  split_ifs
  · rfl
  · rw [contained_foldr_go fun x => e.contained_primeEncoder ..]
    constructor
    · intro h
      exact h.2 (none : Option Text)
    · intro h
      refine ⟨fun hp => hp.elim, fun err => ?_⟩
      dsimp only
      split
      · exact contained_answer _
      · exact h

/-! ## Which requests -/

/-- The goroutine of `tryDecodeStreaming` is started: the body is JSON with
`stream: true` and any `cache_hit_threshold`. -/
def Env.attemptStreams (e : Env N) (r : HttpRequest) : Bool :=
  match r.body with
  | .error _ => false
  | .ok original =>
    match e.unmarshalMap original with
    | none => false
    | some request =>
      (get? (request.getD []) requestFieldCacheHitThreshold).isSome && e.streams (request.getD [])

/-- After the encoders there is a threshold: the body is an object with `stream: true`. -/
def Env.encodedStreams (e : Env N) (r : HttpRequest) (d : Draws) : Bool :=
  match r.body, d.requestID with
  | .ok original, .ok _ =>
    match e.unmarshalMap original with
    | some (some m) => e.streams m
    | _ => false
  | _, _ => false

/-- The handler starts the goroutine of `tryDecodeStreaming`. -/
def Env.handlerStreams (e : Env N) (cfg : Config) (av : AllowlistValidator) (route : Request) (r : HttpRequest)
    (d : Draws) : Bool :=
  match e.kvConnector, disaggregatedPrefillHandler cfg av route with
  | .sharedStorage, .prefill _ => e.attemptStreams r
  | .sharedStorage, .encodePrefill hostPort _ => hostPort ≠ [] && e.encodedStreams r d
  | _, _ => false

variable {hostPort : GoString} {r : HttpRequest}

theorem Env.contained_runSharedStorageProtocol :
    (e.runSharedStorageProtocol r hostPort).Contained Call.panics true ↔ e.attemptStreams r = false := by
  unfold Env.runSharedStorageProtocol Env.attemptStreams
  cases r.body with
  | error err => exact iff_of_true (contained_answer _) rfl
  | ok original =>
    cases hm : e.unmarshalMap original with
    | none =>
      simp only [hm]
      exact iff_of_true (contained_answer _) trivial
    | some request =>
      simp only [hm]
      split_ifs with h
      · rw [e.contained_tryDecode rfl (e.contained_prefillThenDecode ..), h, Bool.true_and, Bool.not_eq_true]
      · rw [Bool.not_eq_true] at h
        rw [h, Bool.false_and]
        exact iff_of_true (e.contained_prefillThenDecode ..) rfl

theorem Env.contained_runPDConnectorProtocol {d : Draws} {api : APIType} :
    (e.runPDConnectorProtocol r d hostPort api).Contained Call.panics true ↔
      ¬(e.kvConnector = .sharedStorage ∧ e.attemptStreams r) := by
  unfold Env.runPDConnectorProtocol
  cases e.kvConnector with
  | sharedStorage => simp [e.contained_runSharedStorageProtocol]
  | sglang => exact iff_of_true (e.contained_runSGLangProtocol ..) (by simp)
  | nixlV2 => exact iff_of_true (e.contained_runNIXLProtocolV2 ..) (by simp)

theorem Env.attemptStreams_of_encoded {header : Header} (h : Json.Canonical (.object m)) :
    e.attemptStreams { header, body := .ok (e.marshalMap (put requestFieldCacheHitThreshold (e.int 0) m)) } =
      e.streams m := by
  have hc : Json.Canonical (.object (put requestFieldCacheHitThreshold (e.int 0) m)) := h.put (.number _)
  have hs : requestFieldStream ≠ requestFieldCacheHitThreshold := by decide
  simp [Env.attemptStreams, e.unmarshalMap_marshalMap hc, e.streams_put hs]

theorem Env.contained_runEPDProtocol {d : Draws} {encoders : List GoString} :
    (e.runEPDProtocol r d hostPort encoders).Contained Call.panics true ↔
      ¬(e.kvConnector = .sharedStorage ∧ hostPort ≠ [] ∧ e.encodedStreams r d) := by
  unfold Env.runEPDProtocol Env.encodedStreams
  cases r.body with
  | error err => exact iff_of_true (contained_answer _) (by simp)
  | ok original =>
    cases hm : e.unmarshalMap original with
    | none =>
      simp only [hm]
      cases d.requestID <;> exact iff_of_true (contained_answer _) (by simp [hm])
    | some request =>
      cases d.requestID with
      | error err =>
        simp only [hm]
        exact iff_of_true (contained_answer _) (by simp)
      | ok requestID =>
        simp only [hm]
        -- the encoders' stage adds nothing
        have hfan : ∀ next : Program,
            (if encoders ≠ [] then e.fanoutEncoderPrimer (request.getD []) encoders requestID next else next).Contained
              Call.panics true ↔ next.Contained Call.panics true := by
          intro next
          split_ifs
          · exact e.contained_fanoutEncoderPrimer
          · rfl
        rw [hfan]
        cases request with
        | none => exact iff_of_true rfl (by simp)
        | some m =>
          simp only
          split_ifs with hp
          · rw [e.contained_runPDConnectorProtocol, e.attemptStreams_of_encoded (e.canonical_of_unmarshalMap hm)]
            simp [hp]
          · exact iff_of_true (e.contained_decode _) (by simp [hp])

/-- **A failing upstream ends the sidecar exactly when the handler decodes
first through a `responseWriterWithBuffer`**: in every other request, at
whatever point an upstream fails and in whatever order the goroutines move, a
panic of a reverse proxy is on the handler's goroutine or recovered. -/
theorem upstream_failures_contained_iff (e : Env N) (cfg : Config) (av : AllowlistValidator) (route : Request)
    (r : HttpRequest) (d : Draws) (api : APIType) :
    (∀ s, Reaches (Process.step Call.panics) Any (Process.start (e.handle cfg av route r d api)) s →
      s.crashed = false) ↔ e.handlerStreams cfg av route r d = false := by
  rw [Process.contained_iff]
  unfold Env.handle Env.handlerStreams
  cases disaggregatedPrefillHandler cfg av route with
  | forbidden =>
    simp only
    exact iff_of_true (contained_answer _) (by cases e.kvConnector <;> rfl)
  | encodePrefill hostPort encoders =>
    simp only [e.contained_runEPDProtocol]
    cases e.kvConnector <;> simp
  | prefill hostPort =>
    simp only [e.contained_runPDConnectorProtocol]
    cases e.kvConnector <;> simp
  | decodeOnly =>
    simp only
    exact iff_of_true (e.contained_decode _) (by cases e.kvConnector <;> rfl)

end

/-- A sidecar with the shared storage connector; only numbers without a
fraction occur. -/
def sharedStorageSidecar : Env Nat where
  numbers := Json.natFormat
  jsonError _ := []
  urlError _ := []
  isIPv6 _ := false
  proxies _ _ := none
  kvConnector := .sharedStorage
  forwardDataParallel := true
  dataParallelProxies _ := false
  sglangBootstrapPort := 8998
  flushable := true

def oneRoom : Draws := { requestID := .ok ['a'], uuid := .ok ['b'], roomID := 1 }

/-- The decoder's connection breaks while the first, streamed decode attempt is
copied. -/
theorem upstream_failure_ends_sidecar :
    ∃ s, Reaches (Process.step Call.panics) Any
      (Process.start (sharedStorageSidecar.handle ⟨false, false⟩ (Server.init false).allowlistValidator
        { prefillHostPorts := ["10.0.0.7:8000".toList], encoderHostPorts := [], sample := 0 }
        { header := [], body := .ok "\x7b\"cache_hit_threshold\":1,\"prompt\":\"hi\",\"stream\":true\x7d".toList }
        oneRoom .chatCompletions)) s ∧ s.crashed = true :=
  exists_of_run _ _ [Process.Event.spawn 0, .panic 1] _ (by decide +kernel)

end InferenceScheduler.Sidecar
