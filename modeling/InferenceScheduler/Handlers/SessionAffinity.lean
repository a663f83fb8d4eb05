/-
The session affinity scorer with the stream it works on. The scorer writes its
token into the response's headers when the body has ended, while `Process`
answers the headers before it reads the body: the token the client gets is the
one the model server has sent, if any.
-/
import InferenceScheduler.Handlers.Answers
import InferenceScheduler.Lib.Text

namespace InferenceScheduler.Handlers

open SortedMap

variable {P N : Type}

/-! ## The scorer -/

/-- The name a request's session token stands for; none if it does not decode. -/
def sessionPodName (headers : Headers) : Bytes :=
  let token := (get? headers sessionTokenHeader).getD []
  if token = [] then [] else (Base64.decode token).getD []

/-- `SessionAffinity.Score`; the scores are 0 and 1. -/
def score (headers : Headers) (endpoints : List EndpointMetadata) : List (EndpointMetadata × Nat) :=
  endpoints.map fun e => (e, if e.namespacedName.string = sessionPodName headers then 1 else 0)

/-- Every later request with the token scores 1 for exactly the candidates
with the pod's namespaced name. -/
def Sticky (pod : EndpointMetadata) (token : Bytes) : Prop :=
  ∀ (headers : Headers) (endpoints : List EndpointMetadata), get? headers sessionTokenHeader = some token →
    score headers endpoints = endpoints.map fun e => (e, if e.namespacedName = pod.namespacedName then 1 else 0)

theorem string_inj {n n' : NamespacedName} (h : n.string = n'.string) : n = n' := by
  obtain ⟨ns, name, hns⟩ := n
  obtain ⟨ns', name', hns'⟩ := n'
  have hcut : cutFirst 0x2f (ns ++ 0x2f :: name) = cutFirst 0x2f (ns' ++ 0x2f :: name') := congrArg (cutFirst 0x2f) h
  rw [cutFirst_append_cons hns, cutFirst_append_cons hns', Option.some.injEq, Prod.mk.injEq] at hcut
  obtain ⟨rfl, rfl⟩ := hcut
  rfl

theorem string_ne_nil (n : NamespacedName) : n.string ≠ [] := by simp [NamespacedName.string]

theorem sticky_iff {pod : EndpointMetadata} {token : Bytes} :
    Sticky pod token ↔ Base64.decode token = some pod.namespacedName.string := by
  constructor
  · intro h
    have hscore := h [(sessionTokenHeader, token)] [pod] (by simp [get?])
    have hname : pod.namespacedName.string = sessionPodName [(sessionTokenHeader, token)] := by
      by_contra hne
      simp [score, hne] at hscore
    have htoken : sessionPodName [(sessionTokenHeader, token)] =
        if token = [] then [] else (Base64.decode token).getD [] := by simp [sessionPodName, get?]
    rw [htoken] at hname
    split_ifs at hname
    · exact absurd hname (string_ne_nil _)
    · cases hd : Base64.decode token with
      | none => exact absurd (by simpa [hd] using hname) (string_ne_nil _)
      | some bytes => simpa [hd] using hname.symm
  · intro h headers endpoints hget
    have hne : token ≠ [] := by
      intro he
      rw [he] at h
      exact string_ne_nil pod.namespacedName (Option.some.inj h).symm
    have hname : sessionPodName headers = pod.namespacedName.string := by simp [sessionPodName, hget, hne, h]
    rw [score, hname]
    refine List.map_congr_left fun e _ => ?_
    simp only [show e.namespacedName.string = pod.namespacedName.string ↔ e.namespacedName = pod.namespacedName from
      ⟨string_inj, congrArg _⟩]

/-! ## The headers the client gets -/

/-- The value of a header in what the model server has sent; of several the
last. -/
def lastValue (headers : List HeaderValue) (key : Bytes) : Option Bytes :=
  headers.foldl (fun v header => if header.key = key then some (getHeaderValue header) else v) none

theorem get?_foldl_put (key : Bytes) : ∀ (headers : List HeaderValue) (m : Headers),
    get? (headers.foldl (fun m header => put header.key (getHeaderValue header) m) m) key =
      headers.foldl (fun v header => if header.key = key then some (getHeaderValue header) else v) (get? m key)
  | [], _ => rfl
  | h :: headers, m => by
    rw [List.foldl_cons, List.foldl_cons, get?_foldl_put key headers]
    congr 1
    split_ifs with hk
    · rw [hk, get?_put_self]
    · exact get?_put_of_ne (fun he => hk he.symm) m

theorem get?_filter_of_key {p : Bytes → Bool} {key : Bytes} (h : p key = true) : ∀ m : Headers,
    get? (m.filter fun x => p x.1) key = get? m key
  | [] => rfl
  | (k, v) :: m => by
    by_cases hk : p k = true
    · rw [List.filter_cons_of_pos (by simpa using hk), get?, get?, get?_filter_of_key h m]
    · have hne : key ≠ k := fun he => hk (he ▸ h)
      rw [List.filter_cons_of_neg (by simpa using hk), get?_filter_of_key h m, get?, if_neg hne]

theorem get?_responseHeader_plugins : ∀ (plugins : List ResponseHeaderPlugin) (response : FwkResponse N),
    get? (plugins.foldl (fun x p => p.responseHeader x) response).headers sessionTokenHeader =
      get? response.headers sessionTokenHeader
  | [], _ => rfl
  | plugin :: plugins, response => by
    have hne : sessionTokenHeader ≠ conformanceTestResultHeader := by decide
    rw [List.foldl_cons, get?_responseHeader_plugins plugins]
    cases plugin with
    | predictedLatency => rfl
    | destinationEndpointServedVerifier => exact get?_put_of_ne hne _

theorem get?_answeredHeaders (s : Server P N) (metadata : List (Text × Json N)) (headers : List HeaderValue) :
    get? (Server.answeredHeaders (s.shownHeaders metadata headers)) sessionTokenHeader =
      lastValue headers sessionTokenHeader := by
  have hne : sessionTokenHeader ≠ str "x-went-into-resp-headers" := by decide
  have hown : (!isSystemOwnedHeader sessionTokenHeader) = true := by decide
  rw [Server.answeredHeaders, get?, if_neg hne, get?_filter_of_key (p := fun k => !isSystemOwnedHeader k) hown,
    Server.shownHeaders, get?_responseHeader_plugins]
  exact get?_foldl_put _ headers []

/-- **Session affinity, end to end.** The response headers sent for a request
routed to a pod carry a token that brings later requests back to the pod
exactly when the model server itself has sent such a token. -/
theorem session_token_sent_iff (s : Server P N) (x : Exchange) (ms : List (Input N))
    (hms : ms.map (·.1.request) = x.messages) (hok : s.NoErrors (Process.init none) ms) :
    ∃ p, run s.step (Process.init none) (ms.map fun m => .recv m.1 m.2) = some p ∧
      ∀ pod, p.reqCtx.targetPod = some pod →
        ((∃ hs token, .responseHeaders hs ∈ p.srv.sent.map ProcessingResponse.response ∧
            get? hs sessionTokenHeader = some token ∧ Sticky pod token) ↔
          ∃ token, lastValue x.responseHeaders sessionTokenHeader = some token ∧
            Base64.decode token = some pod.namespacedName.string) := by
  obtain ⟨metadata, hs, hsent, -, -⟩ := Server.feed_exchange hms hok
  refine ⟨_, Server.run_of_noErrors ms hok rfl rfl, fun pod _ => ?_⟩
  -- the only answer to the response's headers
  have hmem : ∀ hs', .responseHeaders hs' ∈ (ms.foldl s.feed (Process.init none)).srv.sent.map
      ProcessingResponse.response ↔ hs' = Server.answeredHeaders (s.shownHeaders metadata x.responseHeaders) := by
    intro hs'
    rw [hsent.sent, Exchange.answers]
    cases x.trailers <;> simp
  constructor
  · rintro ⟨hs', token, hin, hget, hsticky⟩
    rw [(hmem hs').mp hin, get?_answeredHeaders] at hget
    exact ⟨token, hget, sticky_iff.mp hsticky⟩
  · rintro ⟨token, hget, hdecode⟩
    exact ⟨_, token, (hmem _).mpr rfl, (get?_answeredHeaders ..).trans hget, sticky_iff.mpr hdecode⟩

def shortExchange (responseHeaders : List HeaderValue) : Exchange where
  requestHeaders := []
  requestBody := [str "hello"]
  responseHeaders
  responseBody := [str "hi"]
  trailers := false

def shortInputs (responseHeaders : List HeaderValue) : List (Input Empty) :=
  (shortExchange responseHeaders).messages.map fun request => ({ request }, routeToA)

/-- The scorer is configured and makes its token, after the headers are gone. -/
theorem session_token_too_late :
    ∃ p, run (passthrough [.sessionAffinity]).step (Process.init none) ((shortInputs []).map fun m => .recv m.1 m.2) =
        some p ∧ p.reqCtx.targetPod = some podA ∧
      get? p.reqCtx.responseHeaders sessionTokenHeader = some (sessionToken podA) ∧
      ∀ hs, .responseHeaders hs ∈ p.srv.sent.map ProcessingResponse.response → get? hs sessionTokenHeader = none := by
  have h : (run (passthrough [.sessionAffinity]).step (Process.init none)
      ((shortInputs []).map fun m => .recv m.1 m.2)).any (fun p => p.reqCtx.targetPod = some podA &&
        get? p.reqCtx.responseHeaders sessionTokenHeader = some (sessionToken podA) &&
        p.srv.sent.all fun m => match m.response with
          | .responseHeaders hs => get? hs sessionTokenHeader = none
          | _ => true) = true := by decide +kernel
  obtain ⟨p, hp, hq⟩ := (Option.any_eq_true ..).mp h
  simp only [Bool.and_eq_true, decide_eq_true_eq, List.all_eq_true] at hq
  refine ⟨p, hp, hq.1.1, hq.1.2, fun hs hin => ?_⟩
  obtain ⟨m, hm, hresp⟩ := List.mem_map.mp hin
  have := hq.2 m hm
  rw [hresp] at this
  exact of_decide_eq_true this

/-- A model server that sends the token itself. -/
theorem session_token_sent_iff_echoed :
    ∃ p hs token, run (passthrough [.sessionAffinity]).step (Process.init none)
        ((shortInputs [⟨sessionTokenHeader, [], sessionToken podA⟩]).map fun m => .recv m.1 m.2) = some p ∧
      .responseHeaders hs ∈ p.srv.sent.map ProcessingResponse.response ∧
      get? hs sessionTokenHeader = some token ∧ Sticky podA token := by
  obtain ⟨p, hp, hiff⟩ := session_token_sent_iff (passthrough [.sessionAffinity])
    (shortExchange [⟨sessionTokenHeader, [], sessionToken podA⟩])
    (shortInputs [⟨sessionTokenHeader, [], sessionToken podA⟩]) (by decide) (by decide +kernel)
  have hpod : (run (passthrough [.sessionAffinity]).step (Process.init none)
      ((shortInputs [⟨sessionTokenHeader, [], sessionToken podA⟩]).map fun m => .recv m.1 m.2)).any
      (fun p => p.reqCtx.targetPod = some podA) = true := by decide +kernel
  rw [hp] at hpod
  obtain ⟨hs, token, hin, hget, hsticky⟩ := (hiff podA (of_decide_eq_true hpod)).mpr
    ⟨sessionToken podA, by decide +kernel, Base64.decode_encode _⟩
  exact ⟨p, hs, token, hp, hin, hget, hsticky⟩

end InferenceScheduler.Handlers
