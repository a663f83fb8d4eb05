/-
The answers of a whole exchange. A conforming proxy sends the request's headers,
its body in chunks, the response's headers, its body in chunks and perhaps
trailers (`Exchange`). The stream passes through four phases (`Waiting`,
`Routed`, `Responding`, `Finished`), and every message moves it on by a known
list of answers. No handler has an error (`NoErrors`), and `Send` succeeds.
-/
import InferenceScheduler.Handlers.Progress

namespace InferenceScheduler.Handlers

variable {P N : Type}

/-! ## Exchanges -/

/-- A body in its chunks; `last` is the end of stream of the last one. -/
def chunkMessages (message : Bytes → Bool → Message) (last : Bool) : List Bytes → List Message
  | [] => []
  | [chunk] => [message chunk last]
  | chunk :: chunks => message chunk false :: chunkMessages message last chunks

theorem chunkMessages_concat (message : Bytes → Bool → Message) (last : Bool) (chunk : Bytes) : ∀ chunks : List Bytes,
    chunkMessages message last (chunks ++ [chunk]) = chunks.map (message · false) ++ [message chunk last]
  | [] => rfl
  | [_] => rfl
  | c :: c' :: chunks => congrArg (message c false :: ·) (chunkMessages_concat message last chunk (c' :: chunks))

theorem chunkMessages_false (message : Bytes → Bool → Message) : ∀ chunks : List Bytes,
    chunkMessages message false chunks = chunks.map (message · false)
  | [] => rfl
  | [_] => rfl
  | c :: c' :: chunks => congrArg (message c false :: ·) (chunkMessages_false message (c' :: chunks))

structure Exchange where
  requestHeaders : List HeaderValue
  requestBody : List Bytes
  responseHeaders : List HeaderValue
  responseBody : List Bytes
  trailers : Bool

/-- What the proxy sends; headers end the stream if nothing follows them. -/
def Exchange.messages (x : Exchange) : List Message :=
  .requestHeaders x.requestHeaders x.requestBody.isEmpty :: chunkMessages .requestBody true x.requestBody ++
    .responseHeaders x.responseHeaders (x.responseBody.isEmpty && !x.trailers) ::
      (chunkMessages .responseBody (!x.trailers) x.responseBody ++ if x.trailers then [.responseTrailers] else [])

abbrev Input (N : Type) := ProcessingRequest N × Decisions

namespace Server

variable (s : Server P N)

/-- A round of the main loop in which no handler reports an error. -/
def feed (p : Process P N) (m : Input N) : Process P N := s.respond (s.handle p m.1 m.2).1 none

/-- The parser and the director succeed with every message. -/
def NoErrors : Process P N → List (Input N) → Prop
  | _, [] => True
  | p, m :: ms => (s.handle p m.1 m.2).2 = none ∧ NoErrors (s.feed p m) ms

instance decidableNoErrors : ∀ (p : Process P N) (ms : List (Input N)), Decidable (s.NoErrors p ms)
  | _, [] => .isTrue trivial
  | p, m :: ms =>
    have := decidableNoErrors (s.feed p m) ms
    inferInstanceAs (Decidable ((s.handle p m.1 m.2).2 = none ∧ s.NoErrors (s.feed p m) ms))

end Server

/-! ## A pass of sending -/

theorem Stream.sendAll_of_accepts {srv : Stream} (h : srv.accepts = none) : ∀ ms : List ProcessingResponse,
    srv.sendAll ms = (true, { srv with sent := srv.sent ++ ms })
  | [] => by simp [sendAll]
  | m :: ms => by
    have hm : srv.send m = (true, { srv with sent := srv.sent ++ [m] }) := by simp [send, h]
    have h' : ({ srv with sent := srv.sent ++ [m] } : Stream).accepts = none := h
    rw [sendAll, hm]
    refine (sendAll_of_accepts h' ms).trans ?_
    simp

section Passes

variable {r : RequestContext P N} {srv : Stream} {m : ProcessingResponse}

theorem update_waiting (hs : r.requestState = .requestReceived) (hm : r.reqHeaderResp = none) :
    updateStateAndSendIfNeeded r srv = (true, r, srv) := by
  simp [updateStateAndSendIfNeeded, runStages, sendStages, hs, hm]

theorem update_request (hs : r.requestState = .requestReceived) (hm : r.reqHeaderResp = some m)
    (ht : r.reqTrailerResp = none) (ha : srv.accepts = none) :
    updateStateAndSendIfNeeded r srv = (true,
      { r with
        requestState := if r.reqBodyResp = [] then .headerRequestResponseComplete else .bodyRequestResponsesComplete
        reqBodyResp := [] },
      { srv with sent := srv.sent ++ m :: r.reqBodyResp }) := by
  by_cases hb : r.reqBodyResp = []
  · simp [updateStateAndSendIfNeeded, runStages, sendStages, hs, hm, hb, Stream.sendAll_of_accepts ha]
  · simp [updateStateAndSendIfNeeded, runStages, sendStages, hs, hm, hb, ht, ha, Stream.sendAll_of_accepts]

theorem update_responseHeaders (hs : r.requestState = .responseReceived) (hm : r.respHeaderResp = some m)
    (hb : r.respBodyResp = []) (hc : r.responseComplete = false) (ha : srv.accepts = none) :
    updateStateAndSendIfNeeded r srv = (true,
      { r with requestState := .headerResponseResponseComplete, respBodyResp := [] },
      { srv with sent := srv.sent ++ [m] }) := by
  simp [updateStateAndSendIfNeeded, runStages, sendStages, hs, hm, hb, hc, ha, Stream.sendAll_of_accepts]

theorem update_responseBody (hs : r.requestState = .headerResponseResponseComplete)
    (ht : r.responseComplete = false → r.respTrailerResp = none) (ha : srv.accepts = none) :
    updateStateAndSendIfNeeded r srv = (true,
      { r with
        requestState := if r.responseComplete then .bodyResponseResponsesComplete else .headerResponseResponseComplete
        respBodyResp := [] },
      { srv with sent := srv.sent ++ r.respBodyResp ++ r.respTrailerResp.toList }) := by
  by_cases hc : r.responseComplete = true
  · cases hm : r.respTrailerResp <;>
      simp [updateStateAndSendIfNeeded, runStages, sendStages, hs, hc, hm, ha, Stream.sendAll_of_accepts]
  · have hc' : r.responseComplete = false := by simpa using hc
    simp [updateStateAndSendIfNeeded, runStages, sendStages, hs, hc', ht hc', ha, Stream.sendAll_of_accepts]

end Passes

/-! ## What the handlers leave in the context -/

namespace Server

variable (s : Server P N)

theorem respond_of_update {p : Process P N} {r : RequestContext P N} {srv : Stream}
    (h : updateStateAndSendIfNeeded p.reqCtx p.srv = (true, r, srv)) :
    s.respond p none = { p with reqCtx := r, srv } := by
  simp [respond, h]

theorem handleResponseBody_eq (p : Process P N) (bytes : Bytes) (endOfStream : Bool) :
    ∃ usage started headers dynamicMetadata, s.handleResponseBody p bytes endOfStream = { p with
      reqCtx := { p.reqCtx with
        usage := usage, responseBodyStarted := started, responseHeaders := headers, dynamicMetadata := dynamicMetadata }
      calls := p.calls ++ [endOfStream] } := by
  have husage : ∃ usage, s.recordUsage p.reqCtx bytes endOfStream = { p.reqCtx with usage := usage } := by
    rw [recordUsage]
    split
    · next usage _ => exact ⟨usage, rfl⟩
    · exact ⟨_, rfl⟩
  obtain ⟨usage, hu⟩ := husage
  rw [handleResponseBody, hu, directorResponseBody]
  split
  · exact ⟨usage, _, _, _, rfl⟩
  · dsimp only
    split
    · exact ⟨usage, true, _, _, rfl⟩
    · exact ⟨usage, true, _, _, rfl⟩

theorem requestSize_handleRequest {r r' : RequestContext P N} {body : InferenceRequestBody P} {d : Decisions}
    (h : s.handleRequest r body d = .ok r') : r'.requestSize = r'.rawBody.length := by
  have hrepackage : ∀ {r r' : RequestContext P N} {body : InferenceRequestBody P}, s.repackage r body = .ok r' →
      r'.requestSize = r'.rawBody.length := by
    intro r r' body h
    rw [repackage] at h
    split at h
    · split at h
      · cases h
      · cases h
        rfl
    · cases h
      rfl
    · cases h
      rfl
    · cases h
  rw [handleRequest] at h
  split at h
  · cases h
  rw [admitAndSchedule] at h
  split at h
  · cases h
  split_ifs at h
  split at h
  · cases h
  split at h
  · cases h
  · exact hrepackage h

end Server

theorem map_response_attachLast (dynamicMetadata : Option Struct) : ∀ ms : List ProcessingResponse,
    (attachLast dynamicMetadata ms).map ProcessingResponse.response = ms.map ProcessingResponse.response
  | [] => rfl
  | [m] => by
    simp only [attachLast]
    split_ifs <;> rfl
  | m :: m' :: ms => by
    rw [attachLast, List.map_cons, map_response_attachLast dynamicMetadata (m' :: ms)]
    · rfl
    · exact fun h => List.cons_ne_nil _ _ h

theorem map_response_generateResponseBodyResponses (body : Bytes) (setEoS : Bool) (dynamicMetadata : Option Struct) :
    (generateResponseBodyResponses body setEoS dynamicMetadata).map ProcessingResponse.response =
      (buildChunkedBodyResponses body setEoS).map .responseBody := by
  rw [generateResponseBodyResponses, map_response_attachLast, List.map_map]
  rfl

/-- The content lengths among the headers that are set. -/
def announced (setHeaders : List (Bytes × Bytes)) : List (Bytes × Bytes) :=
  setHeaders.filter fun h => toLower h.1 = str "content-length"

theorem announced_traceHeaders (trace : TraceHeaders) : announced trace.list = [] := by
  have h₁ : toLower (str "traceparent") ≠ str "content-length" := by decide
  have h₂ : toLower (str "tracestate") ≠ str "content-length" := by decide
  have h₃ : toLower (str "baggage") ≠ str "content-length" := by decide
  obtain ⟨traceparent, tracestate, baggage⟩ := trace
  cases traceparent <;> cases tracestate <;> cases baggage <;> simp [announced, TraceHeaders.list, h₁, h₂, h₃]

theorem announced_filter (headers : Headers) :
    announced (headers.filter fun h => !isSystemOwnedHeader h.1) = [] := by
  refine List.filter_eq_nil_iff.mpr fun h hh => ?_
  have hown := (List.mem_filter.mp hh).2
  intro heq
  simp [isSystemOwnedHeader, protocolHeaders, of_decide_eq_true heq] at hown

theorem announced_generateHeaders (r : RequestContext P N) (trace : TraceHeaders) :
    announced (generateHeaders r trace) =
      if r.requestSize = 0 then [] else [(contentLengthKey, itoa r.requestSize)] := by
  have h₁ : toLower destinationEndpointKey ≠ str "content-length" := by decide
  have h₂ : toLower contentLengthKey = str "content-length" := by decide
  have hsplit : announced (generateHeaders r trace) =
      announced (if 0 < r.requestSize then [(contentLengthKey, itoa r.requestSize)] else []) ++
        announced trace.list ++ announced (r.requestHeaders.filter fun h => !isSystemOwnedHeader h.1) := by
    simp [announced, generateHeaders, h₁]
  rw [hsplit, announced_traceHeaders, announced_filter, List.append_nil, List.append_nil]
  by_cases h : r.requestSize = 0
  · simp [announced, h]
  · simp [announced, h, h₂, Nat.pos_of_ne_zero h]

/-! ## The phases -/

/-- What has been sent so far, on a stream that goes on. -/
structure Sent (answers : List Answer) (p : Process P N) : Prop where
  sent : p.srv.sent.map ProcessingResponse.response = answers
  accepts : p.srv.accepts = none
  returned : p.returned = none

/-- The request is being received; `acc` is its body so far. -/
structure Waiting (acc : Bytes) (p : Process P N) : Prop extends Sent [] p where
  progress : p.reqCtx.progress = ({} : RequestContext P N).progress
  reqHeaderResp : p.reqCtx.reqHeaderResp = none
  rawBody : p.reqCtx.rawBody = []
  body : p.body = acc

/-- The request can be answered: by `answer` and the chunks `ms`. -/
structure Answerable (answer : ProcessingResponse) (ms : List ProcessingResponse) (p : Process P N) : Prop
    extends Sent [] p where
  reqHeaderResp : p.reqCtx.reqHeaderResp = some answer
  progress : p.reqCtx.progress = { ({} : RequestContext P N).progress with
    reqBodyResp := ms, modelServerStreaming := p.reqCtx.modelServerStreaming }
  body : p.body = []

/-- The request with the body `raw` has been answered. -/
structure Routed (raw : Bytes) (answers : List Answer) (p : Process P N) : Prop extends Sent answers p where
  rawBody : p.reqCtx.rawBody = raw
  complete : p.reqCtx.responseComplete = false
  responseHeaders : p.reqCtx.responseHeaders = []
  respBodyResp : p.reqCtx.respBodyResp = []
  respTrailerResp : p.reqCtx.respTrailerResp = none
  body : p.body = []

/-- What stays as it is while the response is passed on. -/
structure Route where
  rawBody : Bytes
  streaming : Bool
  targetModelName : Bytes
  incomingModelName : Bytes

def RequestContext.route (r : RequestContext P N) : Route where
  rawBody := r.rawBody
  streaming := r.modelServerStreaming
  targetModelName := r.targetModelName
  incomingModelName := r.incomingModelName

def Route.rewrite (route : Route) (body : Bytes) : Bytes :=
  rewriteModelName body route.targetModelName route.incomingModelName

/-- The response is being received; `acc` is what is kept of its body. -/
structure Responding (route : Route) (answers : List Answer) (acc : Bytes) (p : Process P N) : Prop
    extends Sent answers p where
  route : p.reqCtx.route = route
  state : p.reqCtx.requestState = .headerResponseResponseComplete
  complete : p.reqCtx.responseComplete = false
  respBodyResp : p.reqCtx.respBodyResp = []
  respTrailerResp : p.reqCtx.respTrailerResp = none
  body : p.body = acc

/-- The response has been answered to its end. -/
structure Finished (route : Route) (answers : List Answer) (p : Process P N) : Prop extends Sent answers p where
  route : p.reqCtx.route = route

/-! ## The request -/

/-- With the message's metadata. -/
abbrev Process.noted (p : Process P N) (m : Input N) : Process P N :=
  { p with reqCtx := { p.reqCtx with metadata := m.1.metadataContext } }

namespace Server

variable {s : Server P N} {p : Process P N} {m : Input N} {acc chunk : Bytes} {headers : List HeaderValue}

theorem handle_requestHeaders_eq (p : Process P N) (m : Input N) (headers : List HeaderValue) :
    ∃ hs, (if extractHeaderValue headers requestIdHeaderKey = [] then
        { p.reqCtx with
          metadata := m.1.metadataContext
          requestHeaders := SortedMap.put requestIdHeaderKey m.2.requestID p.reqCtx.requestHeaders }
        else { p.reqCtx with metadata := m.1.metadataContext }) =
      { p.reqCtx with metadata := m.1.metadataContext, requestHeaders := hs } := by
  split_ifs
  · exact ⟨_, rfl⟩
  · exact ⟨_, rfl⟩

theorem respond_waiting (h : Waiting acc p) : Waiting acc (s.respond p none) := by
  rw [s.respond_of_update (update_waiting (congrArg Progress.requestState h.progress) h.reqHeaderResp)]
  exact h

theorem feed_requestHeaders (h : Waiting acc p) (hm : m.1.request = .requestHeaders headers false) :
    Waiting acc (s.feed p m) := by
  refine respond_waiting ?_
  obtain ⟨hs, hr⟩ := handle_requestHeaders_eq p m headers
  rw [handle, hm]
  dsimp only
  rw [hr]
  obtain ⟨hs', fairness, objective, target, hr'⟩ := handleRequestHeaders_eq
    { p.reqCtx with metadata := m.1.metadataContext, requestHeaders := hs } headers m.2
  rw [hr']
  exact { h with }

theorem respond_answerable {answer : ProcessingResponse} {ms : List ProcessingResponse} (h : Answerable answer ms p) :
    Routed p.reqCtx.rawBody (answer.response :: ms.map ProcessingResponse.response) (s.respond p none) := by
  have hms : p.reqCtx.reqBodyResp = ms := congrArg Progress.reqBodyResp h.progress
  rw [s.respond_of_update (update_request (congrArg Progress.requestState h.progress) h.reqHeaderResp
    (congrArg Progress.reqTrailerResp h.progress) h.accepts)]
  constructor
  · constructor
    · dsimp only
      rw [List.map_append, h.sent, hms]
      rfl
    · exact h.accepts
    · exact h.returned
  · rfl
  · exact congrArg Progress.responseComplete h.progress
  · exact congrArg Progress.responseHeaders h.progress
  · exact congrArg Progress.respBodyResp h.progress
  · exact congrArg Progress.respTrailerResp h.progress
  · exact h.body

theorem feed_requestHeaders_end (h : Waiting [] p) (hm : m.1.request = .requestHeaders headers true)
    (hok : (s.handle p m.1 m.2).2 = none) :
    ∃ hs, Routed [] [.requestHeaders true hs] (s.feed p m) ∧ announced hs = [] := by
  obtain ⟨hs, hr⟩ := handle_requestHeaders_eq p m headers
  have hans : ∃ answer hs, Answerable answer [] (s.handle p m.1 m.2).1 ∧ answer.response = .requestHeaders true hs ∧
      announced hs = [] ∧ (s.handle p m.1 m.2).1.reqCtx.rawBody = [] := by
    rw [handle, hm] at hok ⊢
    dsimp only at hok ⊢
    rw [hr] at hok ⊢
    simp only [handleRequestHeaders, if_true] at hok ⊢
    cases hd : m.2.randomEndpoint with
    | none =>
      rw [hd] at hok
      cases hok
    | some endpoint =>
      have hstreaming : p.reqCtx.modelServerStreaming = false := congrArg Progress.modelServerStreaming h.progress
      have hprog : p.reqCtx.progress = { ({} : RequestContext P N).progress with
          reqBodyResp := [], modelServerStreaming := p.reqCtx.modelServerStreaming } := by
        rw [hstreaming]
        exact h.progress
      exact ⟨_, _, { h with reqHeaderResp := rfl, progress := hprog }, rfl, announced_generateHeaders _ _, h.rawBody⟩
  obtain ⟨answer, hs', ha, hresp, hnone, hraw⟩ := hans
  have hrouted := respond_answerable (s := s) ha
  rw [hraw, hresp] at hrouted
  exact ⟨hs', hrouted, hnone⟩

theorem feed_requestBody (h : Waiting acc p) (hm : m.1.request = .requestBody chunk false) :
    Waiting (acc ++ chunk) (s.feed p m) := by
  refine respond_waiting ?_
  rw [handle, hm]
  exact { h with body := congrArg (· ++ chunk) h.body }

theorem handleRequestBody_eq {d : Decisions} (h : (s.handleRequestBody p d).2 = none) :
    ∃ body r, s.handleRequest { p.reqCtx with rawBody := p.body, requestSize := p.body.length } body d = .ok r ∧
      ∃ evictCh streaming, (s.handleRequestBody p d).1 = { p with
        body := [], evictCh := evictCh
        reqCtx := { r with
          modelServerStreaming := streaming
          reqHeaderResp := some (generateRequestHeaderResponse { r with modelServerStreaming := streaming } d.trace)
          reqBodyResp := generateRequestBodyResponses r.rawBody } } := by
  cases hparse : s.parseRequest p.body p.reqCtx.requestHeaders with
  | error msg => simp [handleRequestBody, hparse] at h
  | ok body =>
    cases hr : s.handleRequest { p.reqCtx with rawBody := p.body, requestSize := p.body.length } body d with
    | error x => simp [handleRequestBody, hparse, hr] at h
    | ok r =>
      refine ⟨body, r, hr, if s.evictionLookup then d.evictChannel else p.evictCh,
        (r.schedulingRequest.map InferenceRequestBody.stream).getD r.modelServerStreaming, ?_⟩
      simp [handleRequestBody, hparse, hr]

theorem feed_requestBody_end (h : Waiting acc p) (hm : m.1.request = .requestBody chunk true)
    (hok : (s.handle p m.1 m.2).2 = none) :
    ∃ raw hs, Routed raw (.requestHeaders true hs :: (buildChunkedBodyResponses raw true).map .requestBody)
      (s.feed p m) ∧ announced hs = if raw = [] then [] else [(contentLengthKey, itoa raw.length)] := by
  have hhandle : s.handle p m.1 m.2 = s.handleRequestBody
      { p.noted m with body := p.body ++ chunk } m.2 := by
    rw [handle, hm]
    rfl
  rw [hhandle] at hok
  obtain ⟨body, r, hr, evictCh, streaming, heq⟩ := handleRequestBody_eq hok
  have hprog : r.progress = ({} : RequestContext P N).progress := (s.progress_of_handleRequest hr).trans h.progress
  have hsize := s.requestSize_handleRequest hr
  have hans : Answerable (generateRequestHeaderResponse { r with modelServerStreaming := streaming } m.2.trace)
      (generateRequestBodyResponses r.rawBody) (s.handle p m.1 m.2).1 := by
    rw [hhandle, heq]
    refine { sent := h.sent, accepts := h.accepts, returned := h.returned, reqHeaderResp := rfl, progress := ?_, body := rfl }
    obtain ⟨h₁, -, h₃, h₄, h₅, -, h₇, h₈, h₉, h₁₀⟩ := Progress.mk.inj hprog
    simp only [RequestContext.progress, h₁, h₃, h₄, h₅, h₇, h₈, h₉, h₁₀]
  have hraw : (s.handle p m.1 m.2).1.reqCtx.rawBody = r.rawBody := by rw [hhandle, heq]
  have hrouted := respond_answerable (s := s) hans
  rw [hraw, generateRequestBodyResponses, List.map_map] at hrouted
  refine ⟨r.rawBody, _, hrouted, (announced_generateHeaders _ _).trans ?_⟩
  dsimp only
  rw [hsize]
  simp only [List.length_eq_zero_iff]

/-! ## The response -/

/-- The response's headers as they are after the plugins have seen them. -/
def shownHeaders (s : Server P N) (metadata : List (Text × Json N)) (headers : List HeaderValue) : Headers :=
  let response : FwkResponse N :=
    { headers := headers.foldl (fun m header => SortedMap.put header.key (getHeaderValue header) m) []
      reqMetadata := metadata }
  (s.responseReceivedPlugins.foldl (fun x p => p.responseHeader x) response).headers

/-- The headers set by the answer to the response's headers. -/
def answeredHeaders (shown : Headers) : List (Bytes × Bytes) :=
  (str "x-went-into-resp-headers", str "true") :: shown.filter fun h => !isSystemOwnedHeader h.1

theorem respond_responseHeaders {answers : List Answer} {answer : Answer} (h : Sent answers p)
    (hs : p.reqCtx.requestState = .responseReceived) (hm : p.reqCtx.respHeaderResp = some { response := answer })
    (hc : p.reqCtx.responseComplete = false) (hb : p.reqCtx.respBodyResp = [])
    (ht : p.reqCtx.respTrailerResp = none) (hacc : p.body = acc) :
    Responding p.reqCtx.route (answers ++ [answer]) acc (s.respond p none) := by
  rw [s.respond_of_update (update_responseHeaders hs hm hb hc h.accepts)]
  exact
    { sent := by simp [h.sent]
      accepts := h.accepts
      returned := h.returned
      route := rfl
      state := rfl
      complete := hc
      respBodyResp := rfl
      respTrailerResp := ht
      body := hacc }

theorem feed_responseHeaders {raw : Bytes} {answers : List Answer} {endOfStream : Bool} (h : Routed raw answers p)
    (hm : m.1.request = .responseHeaders headers endOfStream) :
    ∃ route : Route, route.rawBody = raw ∧ Responding route
      (answers ++ [.responseHeaders (answeredHeaders (shownHeaders s m.1.metadataContext headers))]) [] (s.feed p m) := by
  have hhandle : (s.handle p m.1 m.2).1 =
      { p with reqCtx := s.handleResponseHeaders (p.noted m).reqCtx headers } := by
    rw [handle, hm]
  have hmessage : (s.handleResponseHeaders (p.noted m).reqCtx headers).respHeaderResp =
      some { response := .responseHeaders (answeredHeaders (shownHeaders s m.1.metadataContext headers)) } := by
    simp only [handleResponseHeaders, handleResponseHeader, h.responseHeaders]
    rfl
  rw [feed, hhandle]
  refine ⟨_, ?_, respond_responseHeaders ?_ ?_ hmessage ?_ ?_ ?_ ?_⟩
  · exact h.rawBody
  · exact ⟨h.sent, h.accepts, h.returned⟩
  · rfl
  · exact h.complete
  · exact h.respBodyResp
  · exact h.respTrailerResp
  · exact h.body

variable {route : Route} {answers ms ts : List Answer}

theorem respond_responding (h : Sent answers p) (hs : p.reqCtx.requestState = .headerResponseResponseComplete)
    (hc : p.reqCtx.responseComplete = false) (ht : p.reqCtx.respTrailerResp = none)
    (hr : p.reqCtx.route = route) (hms : p.reqCtx.respBodyResp.map ProcessingResponse.response = ms)
    (hacc : p.body = acc) : Responding route (answers ++ ms) acc (s.respond p none) := by
  rw [s.respond_of_update (update_responseBody hs (fun _ => ht) h.accepts)]
  exact
    { sent := by simp [h.sent, ht, ← hms]
      accepts := h.accepts
      returned := h.returned
      route := hr
      state := by simp [hc]
      complete := hc
      respBodyResp := rfl
      respTrailerResp := ht
      body := hacc }

theorem respond_finished (h : Sent answers p) (hs : p.reqCtx.requestState = .headerResponseResponseComplete)
    (hc : p.reqCtx.responseComplete = true) (hr : p.reqCtx.route = route)
    (hms : p.reqCtx.respBodyResp.map ProcessingResponse.response = ms)
    (hts : p.reqCtx.respTrailerResp.toList.map ProcessingResponse.response = ts) :
    Finished route (answers ++ ms ++ ts) (s.respond p none) := by
  rw [s.respond_of_update (update_responseBody hs (fun hc' => absurd hc (by simp [hc'])) h.accepts)]
  exact
    { sent := by simp [h.sent, ← hms, ← hts]
      accepts := h.accepts
      returned := h.returned
      route := hr }

/-- The answers to one part of the response's body. -/
def bodyAnswers (body : Bytes) (setEoS : Bool) : List Answer := (buildChunkedBodyResponses body setEoS).map .responseBody

theorem streamChunk_eq (p : Process P N) (chunk : Bytes) (endOfStream : Bool) :
    ∃ usage started hs dynamicMetadata calls, s.streamChunk p chunk endOfStream = { p with
      calls := calls
      reqCtx := { p.reqCtx with
        usage := usage
        responseBodyStarted := started
        responseHeaders := hs
        dynamicMetadata := dynamicMetadata
        responseComplete := p.reqCtx.responseComplete || endOfStream
        respBodyResp := generateResponseBodyResponses (p.reqCtx.route.rewrite chunk) endOfStream dynamicMetadata } } := by
  obtain ⟨usage, started, hs, dynamicMetadata, hbody⟩ := s.handleResponseBody_eq
    { p with reqCtx := { p.reqCtx with responseComplete := p.reqCtx.responseComplete || endOfStream } } chunk endOfStream
  refine ⟨usage, started, hs, dynamicMetadata, p.calls ++ [endOfStream], ?_⟩
  rw [streamChunk, hbody]
  rfl

theorem finishResponse_eq {p : Process P N} (h : p.reqCtx.responseComplete = false) (body : Bytes)
    (streaming setEos : Bool) :
    ∃ usage started hs dynamicMetadata calls, s.finishResponse p body streaming setEos = { p with
      calls := calls
      reqCtx := { p.reqCtx with
        usage := usage
        responseBodyStarted := started
        responseHeaders := hs
        dynamicMetadata := dynamicMetadata
        responseComplete := true
        respBodyResp := if streaming then p.reqCtx.respBodyResp
          else generateResponseBodyResponses (p.reqCtx.route.rewrite body) setEos dynamicMetadata } } := by
  obtain ⟨usage, started, hs, dynamicMetadata, hbody⟩ := s.handleResponseBody_eq
    { p with reqCtx := { p.reqCtx with responseComplete := true } } body true
  refine ⟨usage, started, hs, dynamicMetadata, p.calls ++ [true], ?_⟩
  rw [finishResponse, if_neg (by simp [h]), hbody]
  cases streaming <;> rfl

theorem handle_streamed {endOfStream : Bool} (h : Responding route answers acc p) (hst : route.streaming = true)
    (hm : m.1.request = .responseBody chunk endOfStream) :
    (s.handle p m.1 m.2).1 = s.streamChunk (p.noted m) chunk endOfStream := by
  have hstreaming : p.reqCtx.modelServerStreaming = true := (congrArg Route.streaming h.route).trans hst
  rw [handle, hm]
  simp [hstreaming, Process.noted]

theorem feed_streamed (h : Responding route answers acc p) (hst : route.streaming = true)
    (hm : m.1.request = .responseBody chunk false) :
    Responding route (answers ++ bodyAnswers (route.rewrite chunk) false) acc (s.feed p m) := by
  obtain ⟨usage, started, hs, dynamicMetadata, calls, heq⟩ := streamChunk_eq (s := s) (p.noted m) chunk false
  rw [feed, handle_streamed h hst hm, heq]
  refine respond_responding ⟨h.sent, h.accepts, h.returned⟩ h.state ?_ h.respTrailerResp h.route ?_ h.body
  · exact (Bool.or_false _).trans h.complete
  · exact (map_response_generateResponseBodyResponses _ _ _).trans (by rw [← h.route]; rfl)

theorem feed_streamed_end (h : Responding route answers acc p) (hst : route.streaming = true)
    (hm : m.1.request = .responseBody chunk true) :
    Finished route (answers ++ bodyAnswers (route.rewrite chunk) true) (s.feed p m) := by
  obtain ⟨usage, started, hs, dynamicMetadata, calls, heq⟩ := streamChunk_eq (s := s) (p.noted m) chunk true
  rw [feed, handle_streamed h hst hm, heq, ← List.append_nil (answers ++ _)]
  refine respond_finished ⟨h.sent, h.accepts, h.returned⟩ h.state ?_ h.route ?_ ?_
  · exact Bool.or_true _
  · exact (map_response_generateResponseBodyResponses _ _ _).trans (by rw [← h.route]; rfl)
  · exact congrArg (fun t => t.toList.map ProcessingResponse.response) h.respTrailerResp

theorem feed_buffered (h : Responding route answers acc p) (hst : route.streaming = false)
    (hm : m.1.request = .responseBody chunk false) : Responding route answers (acc ++ chunk) (s.feed p m) := by
  have hstreaming : p.reqCtx.modelServerStreaming = false := (congrArg Route.streaming h.route).trans hst
  have hhandle : (s.handle p m.1 m.2).1 = { p.noted m with body := p.body ++ chunk } := by
    rw [handle, hm]
    simp [hstreaming, bufferChunk]
  rw [feed, hhandle, ← List.append_nil answers]
  refine respond_responding ⟨h.sent, h.accepts, h.returned⟩ h.state h.complete h.respTrailerResp h.route ?_ ?_
  · exact congrArg (List.map ProcessingResponse.response) h.respBodyResp
  · exact congrArg (· ++ chunk) h.body

theorem feed_buffered_end (h : Responding route answers acc p) (hst : route.streaming = false)
    (hm : m.1.request = .responseBody chunk true) :
    Finished route (answers ++ bodyAnswers (route.rewrite (acc ++ chunk)) true) (s.feed p m) := by
  have hstreaming : p.reqCtx.modelServerStreaming = false := (congrArg Route.streaming h.route).trans hst
  have hhandle : (s.handle p m.1 m.2).1 = s.finishResponse { p.noted m with body := p.body ++ chunk }
      (p.body ++ chunk) false true := by
    rw [handle, hm]
    simp [hstreaming, bufferChunk]
  obtain ⟨usage, started, hs, dynamicMetadata, calls, heq⟩ := finishResponse_eq (s := s) (p := { p.noted m with body := p.body ++ chunk }) h.complete
    (p.body ++ chunk) false true
  rw [feed, hhandle, heq, ← List.append_nil (answers ++ _)]
  refine respond_finished ⟨h.sent, h.accepts, h.returned⟩ h.state rfl h.route ?_ ?_
  · exact (map_response_generateResponseBodyResponses _ _ _).trans (by rw [← h.route, ← h.body]; rfl)
  · exact congrArg (fun t => t.toList.map ProcessingResponse.response) h.respTrailerResp

theorem feed_trailers (h : Responding route answers acc p) (hm : m.1.request = .responseTrailers) :
    Finished route (answers ++ (if route.streaming then [] else bodyAnswers (route.rewrite acc) false) ++
      [.responseTrailers]) (s.feed p m) := by
  obtain ⟨usage, started, hs, dynamicMetadata, calls, heq⟩ := finishResponse_eq (s := s)
    (p := p.noted m) h.complete
    p.body p.reqCtx.modelServerStreaming false
  have hhandle : (s.handle p m.1 m.2).1 = { s.finishResponse (p.noted m) p.body p.reqCtx.modelServerStreaming false with
      reqCtx := { (s.finishResponse (p.noted m) p.body p.reqCtx.modelServerStreaming false).reqCtx with respTrailerResp := some { response := .responseTrailers } } } := by
    rw [handle, hm]
  rw [feed, hhandle, heq]
  refine respond_finished ⟨h.sent, h.accepts, h.returned⟩ h.state rfl h.route ?_ rfl
  have hstreaming : p.reqCtx.modelServerStreaming = route.streaming := congrArg Route.streaming h.route
  dsimp only
  rw [hstreaming]
  split
  · exact congrArg (List.map ProcessingResponse.response) h.respBodyResp
  · exact (map_response_generateResponseBodyResponses _ _ _).trans (by rw [← h.route, ← h.body]; rfl)

/-! ## Bodies -/

theorem noErrors_append : ∀ {ms ms' : List (Input N)} {p : Process P N}, s.NoErrors p (ms ++ ms') ↔
    s.NoErrors p ms ∧ s.NoErrors (ms.foldl s.feed p) ms'
  | [], _, _ => by simp [NoErrors]
  | m :: ms, ms', p => by
    rw [List.cons_append, NoErrors, NoErrors, noErrors_append, and_assoc]
    rfl

theorem feed_requestChunks : ∀ (chunks : List Bytes) {ms : List (Input N)} {p : Process P N} {acc : Bytes},
    ms.map (·.1.request) = chunks.map (.requestBody · false) → Waiting acc p →
    Waiting (acc ++ chunks.flatten) (ms.foldl s.feed p)
  | [], ms, p, acc, hms, h => by
    rw [List.map_eq_nil_iff.mp hms]
    simpa using h
  | chunk :: chunks, ms, p, acc, hms, h => by
    obtain ⟨m, ms', rfl, hm, hrest⟩ := List.map_eq_cons_iff.mp hms
    have ih := feed_requestChunks chunks hrest (feed_requestBody (s := s) h hm)
    rwa [List.append_assoc] at ih

theorem feed_streamedChunks (hst : route.streaming = true) : ∀ (chunks : List Bytes) {ms : List (Input N)}
    {p : Process P N} {answers : List Answer}, ms.map (·.1.request) = chunks.map (.responseBody · false) →
    Responding route answers acc p →
    Responding route (answers ++ chunks.flatMap fun c => bodyAnswers (route.rewrite c) false) acc (ms.foldl s.feed p)
  | [], ms, p, answers, hms, h => by
    rw [List.map_eq_nil_iff.mp hms]
    simpa using h
  | chunk :: chunks, ms, p, answers, hms, h => by
    obtain ⟨m, ms', rfl, hm, hrest⟩ := List.map_eq_cons_iff.mp hms
    have ih := feed_streamedChunks hst chunks hrest (feed_streamed (s := s) h hst hm)
    rwa [List.append_assoc] at ih

theorem feed_bufferedChunks (hst : route.streaming = false) : ∀ (chunks : List Bytes) {ms : List (Input N)}
    {p : Process P N} {acc : Bytes}, ms.map (·.1.request) = chunks.map (.responseBody · false) →
    Responding route answers acc p → Responding route answers (acc ++ chunks.flatten) (ms.foldl s.feed p)
  | [], ms, p, acc, hms, h => by
    rw [List.map_eq_nil_iff.mp hms]
    simpa using h
  | chunk :: chunks, ms, p, acc, hms, h => by
    obtain ⟨m, ms', rfl, hm, hrest⟩ := List.map_eq_cons_iff.mp hms
    have ih := feed_bufferedChunks hst chunks hrest (feed_buffered (s := s) h hst hm)
    rwa [List.append_assoc] at ih

/-! ## Whole exchanges -/

end Server

/-- The chunks the request is answered with. -/
def Exchange.requestChunks (x : Exchange) (raw : Bytes) : List StreamedBodyResponse :=
  if x.requestBody = [] then [] else buildChunkedBodyResponses raw true

/-- The chunks a streamed body is answered with; `last` ends the last one. -/
def streamedChunks (route : Route) (last : Bool) : List Bytes → List StreamedBodyResponse
  | [] => []
  | [chunk] => buildChunkedBodyResponses (route.rewrite chunk) last
  | chunk :: chunks => buildChunkedBodyResponses (route.rewrite chunk) false ++ streamedChunks route last chunks

theorem streamedChunks_concat (route : Route) (last : Bool) (chunk : Bytes) : ∀ chunks : List Bytes,
    streamedChunks route last (chunks ++ [chunk]) =
      chunks.flatMap (fun c => buildChunkedBodyResponses (route.rewrite c) false) ++
        buildChunkedBodyResponses (route.rewrite chunk) last
  | [] => rfl
  | [_] => by simp [streamedChunks]
  | c :: c' :: chunks => by
    have ih := streamedChunks_concat route last chunk (c' :: chunks)
    refine (congrArg (buildChunkedBodyResponses (route.rewrite c) false ++ ·) ih).trans ?_
    simp

theorem streamedChunks_false (route : Route) : ∀ chunks : List Bytes,
    streamedChunks route false chunks = chunks.flatMap fun c => buildChunkedBodyResponses (route.rewrite c) false
  | [] => rfl
  | [_] => by simp [streamedChunks]
  | c :: c' :: chunks =>
    congrArg (buildChunkedBodyResponses (route.rewrite c) false ++ ·) (streamedChunks_false route (c' :: chunks))

/-- One part for each chunk of a streamed response, the whole body of any other. -/
def Exchange.responseChunks (x : Exchange) (route : Route) : List StreamedBodyResponse :=
  if route.streaming then streamedChunks route (!x.trailers) x.responseBody
  else if x.responseBody = [] ∧ x.trailers = false then []
  else buildChunkedBodyResponses (route.rewrite x.responseBody.flatten) (!x.trailers)

/-- All answers, in their order. -/
def Exchange.answers (x : Exchange) (route : Route) (hs hs' : List (Bytes × Bytes)) : List Answer :=
  .requestHeaders true hs :: (x.requestChunks route.rawBody).map .requestBody ++
    .responseHeaders hs' :: ((x.responseChunks route).map .responseBody ++
      if x.trailers then [.responseTrailers] else [])

namespace Server

variable {s : Server P N} {ms : List (Input N)} {x : Exchange}

theorem feed_request {m : Input N} (hm : m.1.request = .requestHeaders x.requestHeaders x.requestBody.isEmpty)
    (hms : ms.map (·.1.request) = chunkMessages .requestBody true x.requestBody)
    (hok : s.NoErrors (Process.init none) (m :: ms)) :
    ∃ raw hs, Routed raw (.requestHeaders true hs :: (x.requestChunks raw).map .requestBody)
      (ms.foldl s.feed (s.feed (Process.init none) m)) ∧
      (x.requestBody = [] → raw = []) ∧ announced hs = if raw = [] then [] else [(contentLengthKey, itoa raw.length)] := by
  have hinit : Waiting [] (Process.init none : Process P N) := ⟨⟨rfl, rfl, rfl⟩, rfl, rfl, rfl, rfl⟩
  rcases List.eq_nil_or_concat x.requestBody with hb | ⟨chunks, chunk, hb⟩
  · rw [hb] at hm hms
    obtain ⟨hs, hrouted, hnone⟩ := feed_requestHeaders_end hinit hm hok.1
    rw [List.map_eq_nil_iff.mp hms]
    exact ⟨[], hs, by simpa [Exchange.requestChunks, hb] using hrouted, fun _ => rfl, hnone⟩
  · rw [List.concat_eq_append] at hb
    have hne : x.requestBody ≠ [] := by simp [hb]
    rw [hb, chunkMessages_concat] at hms
    rw [List.isEmpty_eq_false_iff.mpr hne] at hm
    obtain ⟨ms₁, ms₂, rfl, h₁, h₂⟩ := List.map_eq_append_iff.mp hms
    obtain ⟨m₂, rest, rfl, hm₂, hnil⟩ := List.map_eq_cons_iff.mp h₂
    rw [List.map_eq_nil_iff.mp hnil] at hok ⊢
    obtain ⟨-, hend⟩ := noErrors_append.mp hok.2
    obtain ⟨raw, hs, hrouted, hlen⟩ := feed_requestBody_end
      (feed_requestChunks chunks h₁ (feed_requestHeaders (s := s) hinit hm)) hm₂ hend.1
    refine ⟨raw, hs, ?_, fun h => absurd h hne, hlen⟩
    rw [List.foldl_append, Exchange.requestChunks, if_neg hne]
    exact hrouted

theorem feed_response {route : Route} {answers : List Answer} {p : Process P N} {ms' : List (Input N)}
    (h : Responding route answers [] p)
    (hms : ms.map (·.1.request) = chunkMessages .responseBody (!x.trailers) x.responseBody)
    (hms' : ms'.map (·.1.request) = if x.trailers then [.responseTrailers] else []) :
    let q := (ms ++ ms').foldl s.feed p
    Sent (answers ++ ((x.responseChunks route).map .responseBody ++ if x.trailers then [.responseTrailers] else [])) q ∧
      q.reqCtx.route = route := by
  dsimp only
  rw [List.foldl_append]
  by_cases ht : x.trailers = true
  · -- every chunk comes before the trailers
    rw [ht, Bool.not_true, chunkMessages_false] at hms
    rw [ht, if_pos rfl] at hms'
    obtain ⟨m, rest, rfl, hm, hnil⟩ := List.map_eq_cons_iff.mp hms'
    rw [List.map_eq_nil_iff.mp hnil]
    by_cases hst : route.streaming = true
    · have hfin := feed_trailers (s := s) (feed_streamedChunks (s := s) hst x.responseBody hms h) hm
      refine ⟨?_, hfin.route⟩
      have hsent := hfin.toSent
      simpa [Exchange.responseChunks, hst, ht, streamedChunks_false, List.map_flatMap, bodyAnswers] using hsent
    · have hst' : route.streaming = false := by simpa using hst
      have hfin := feed_trailers (s := s) (feed_bufferedChunks (s := s) hst' x.responseBody hms h) hm
      refine ⟨?_, hfin.route⟩
      have hsent := hfin.toSent
      simpa [Exchange.responseChunks, hst', ht, bodyAnswers] using hsent
  · have ht' : x.trailers = false := by simpa using ht
    rw [ht', if_neg (by simp)] at hms'
    rw [List.map_eq_nil_iff.mp hms', List.foldl_nil]
    rcases List.eq_nil_or_concat x.responseBody with hb | ⟨chunks, chunk, hb⟩
    · rw [hb] at hms
      rw [List.map_eq_nil_iff.mp hms, List.foldl_nil]
      refine ⟨?_, h.route⟩
      have hsent := h.toSent
      by_cases hst : route.streaming = true <;>
        simpa [Exchange.responseChunks, streamedChunks, hb, ht', hst] using hsent
    · rw [List.concat_eq_append] at hb
      rw [hb, chunkMessages_concat, ht', Bool.not_false] at hms
      obtain ⟨ms₁, ms₂, rfl, h₁, h₂⟩ := List.map_eq_append_iff.mp hms
      obtain ⟨m₂, rest, rfl, hm₂, hnil⟩ := List.map_eq_cons_iff.mp h₂
      rw [List.map_eq_nil_iff.mp hnil, List.foldl_append]
      by_cases hst : route.streaming = true
      · have hfin := feed_streamed_end (s := s) (feed_streamedChunks (s := s) hst chunks h₁ h) hst hm₂
        refine ⟨?_, hfin.route⟩
        have hsent := hfin.toSent
        simpa [Exchange.responseChunks, hst, ht', hb, streamedChunks_concat, List.map_flatMap, bodyAnswers] using hsent
      · have hst' : route.streaming = false := by simpa using hst
        have hfin := feed_buffered_end (s := s) (feed_bufferedChunks (s := s) hst' chunks h₁ h) hst' hm₂
        refine ⟨?_, hfin.route⟩
        have hsent := hfin.toSent
        simpa [Exchange.responseChunks, hst', ht', hb, bodyAnswers] using hsent

/-- **The answers to an exchange.** -/
theorem feed_exchange (hms : ms.map (·.1.request) = x.messages)
    (hok : s.NoErrors (Process.init none) ms) : ∃ metadata hs, let p := ms.foldl s.feed (Process.init none)
    Sent (x.answers p.reqCtx.route hs (answeredHeaders (s.shownHeaders metadata x.responseHeaders))) p ∧
      (x.requestBody = [] → p.reqCtx.rawBody = []) ∧
      announced hs = if p.reqCtx.rawBody = [] then [] else [(contentLengthKey, itoa p.reqCtx.rawBody.length)] := by
  rw [Exchange.messages, List.cons_append] at hms
  obtain ⟨m, ms₁, rfl, hm, hms⟩ := List.map_eq_cons_iff.mp hms
  obtain ⟨ms₂, ms₃, rfl, h₂, hms⟩ := List.map_eq_append_iff.mp hms
  obtain ⟨m', ms₄, rfl, hm', hms⟩ := List.map_eq_cons_iff.mp hms
  obtain ⟨ms₅, ms₆, rfl, h₅, h₆⟩ := List.map_eq_append_iff.mp hms
  rw [← List.cons_append] at hok
  obtain ⟨raw, hs, hrouted, hempty, hlen⟩ := feed_request hm h₂ (noErrors_append.mp hok).1
  obtain ⟨route, hraw, hresponding⟩ := feed_responseHeaders (s := s) hrouted hm'
  obtain ⟨hsent, hroute⟩ := feed_response (s := s) hresponding h₅ h₆
  have hfold : (m :: (ms₂ ++ m' :: (ms₅ ++ ms₆))).foldl s.feed (Process.init none) =
      (ms₅ ++ ms₆).foldl s.feed (s.feed (ms₂.foldl s.feed (s.feed (Process.init none) m)) m') := by
    rw [List.foldl_cons, List.foldl_append, List.foldl_cons]
  have hraw' : ((ms₅ ++ ms₆).foldl s.feed (s.feed (ms₂.foldl s.feed (s.feed (Process.init none) m)) m')).reqCtx.rawBody
      = raw := (congrArg Route.rawBody hroute).trans hraw
  refine ⟨m'.1.metadataContext, hs, ?_⟩
  dsimp only
  rw [hfold, hroute, hraw']
  refine ⟨?_, hempty, hlen⟩
  rw [Exchange.answers, hraw]
  simpa using hsent

/-! ## Runs -/

theorem sends_of_accepts {r : RequestContext P N} {srv : Stream} (h : srv.accepts = none) :
    (updateStateAndSendIfNeeded r srv).1 = true ∧ (updateStateAndSendIfNeeded r srv).2.2.accepts = none := by
  have hstages : ∀ (stages : List (Stage P N)) (r : RequestContext P N) (srv : Stream), srv.accepts = none →
      (runStages stages r srv).1 = true ∧ (runStages stages r srv).2.2.accepts = none := by
    intro stages
    induction stages with
    | nil => exact fun _ _ h => ⟨rfl, h⟩
    | cons stage stages ih =>
      intro r srv h
      rw [runStages]
      split
      · exact ih r srv h
      · next ms r' _ =>
        rw [Stream.sendAll_of_accepts h]
        exact ih r' _ h
  rw [updateStateAndSendIfNeeded]
  split
  · simp [Stream.send, h]
  · exact hstages _ r srv h

theorem run_of_noErrors : ∀ (ms : List (Input N)) {p : Process P N}, s.NoErrors p ms → p.returned = none →
    p.srv.accepts = none →
    run s.step p (ms.map fun m => .recv m.1 m.2) = some (ms.foldl s.feed p)
  | [], _, _, _, _ => rfl
  | m :: ms, p, hok, hret, hacc => by
    obtain ⟨hstream, hret'⟩ := s.handle_stream p m.1 m.2
    obtain ⟨hsent, hacc'⟩ := sends_of_accepts (r := (s.handle p m.1 m.2).1.reqCtx) (hstream ▸ hacc)
    have hfeed : s.feed p m = { (s.handle p m.1 m.2).1 with
        reqCtx := (updateStateAndSendIfNeeded (s.handle p m.1 m.2).1.reqCtx (s.handle p m.1 m.2).1.srv).2.1
        srv := (updateStateAndSendIfNeeded (s.handle p m.1 m.2).1.reqCtx (s.handle p m.1 m.2).1.srv).2.2 } := by
      simp [feed, respond, hsent]
    have hstep : s.step p (.recv m.1 m.2) = some (s.feed p m) := by
      simp only [step, hret, Option.isSome_none, Bool.false_eq_true, if_false, hok.1]
      rfl
    rw [List.map_cons, run, hstep, Option.bind_some, List.foldl_cons]
    refine run_of_noErrors ms hok.2 ?_ ?_
    · rw [hfeed]
      exact hret'.trans hret
    · rw [hfeed]
      exact hacc'

end Server

/-! ## What the chunks add up to -/

theorem joined_flatMap_build (route : Route) : ∀ chunks : List Bytes,
    joined (chunks.flatMap fun c => buildChunkedBodyResponses (route.rewrite c) false) =
      (chunks.map route.rewrite).flatten
  | [] => rfl
  | c :: chunks => by
    rw [List.flatMap_cons, joined_append, joined_buildChunkedBodyResponses, joined_flatMap_build route chunks]
    rfl

theorem joined_streamedChunks (route : Route) (last : Bool) (chunks : List Bytes) :
    joined (streamedChunks route last chunks) = (chunks.map route.rewrite).flatten := by
  rcases List.eq_nil_or_concat chunks with rfl | ⟨init, c, rfl⟩
  · rfl
  · rw [List.concat_eq_append, streamedChunks_concat, joined_append, joined_flatMap_build,
      joined_buildChunkedBodyResponses]
    simp

theorem endsWith_streamedChunks (route : Route) (last : Bool) {chunks : List Bytes} (h : chunks ≠ []) :
    EndsWith last (streamedChunks route last chunks) := by
  rcases List.eq_nil_or_concat chunks with rfl | ⟨init, c, rfl⟩
  · exact absurd rfl h
  · rw [List.concat_eq_append, streamedChunks_concat]
    refine (endsWith_buildChunkedBodyResponses _ last).append fun d hd => ?_
    obtain ⟨c', -, hd⟩ := List.mem_flatMap.mp hd
    exact (endsWith_buildChunkedBodyResponses _ false).forall_false d hd

theorem rewriteModelName_nil (targetModel incomingModel : Bytes) : rewriteModelName [] targetModel incomingModel = [] := by
  simp [rewriteModelName, replaceAll, replaceFrom]

/-- No chunk but the last ends the stream. -/
def OnlyLastEnds (chunks : List StreamedBodyResponse) : Prop := ∀ c ∈ chunks.dropLast, c.endOfStream = false

theorem EndsWith.onlyLastEnds {setEos : Bool} {chunks : List StreamedBodyResponse} (h : EndsWith setEos chunks) :
    OnlyLastEnds chunks := by
  obtain ⟨init, last, rfl, hinit, -⟩ := h
  rw [OnlyLastEnds, List.dropLast_concat]
  exact hinit

namespace Exchange

variable (x : Exchange) (route : Route)

theorem joined_requestChunks {raw : Bytes} (h : x.requestBody = [] → raw = []) : joined (x.requestChunks raw) = raw := by
  rw [requestChunks]
  split_ifs with hb
  · rw [h hb]
    rfl
  · exact joined_buildChunkedBodyResponses raw true

theorem onlyLastEnds_requestChunks (raw : Bytes) : OnlyLastEnds (x.requestChunks raw) := by
  rw [requestChunks]
  split_ifs
  · exact fun c hc => absurd hc List.not_mem_nil
  · exact (endsWith_buildChunkedBodyResponses raw true).onlyLastEnds

theorem joined_responseChunks : joined (x.responseChunks route) =
    if route.streaming then (x.responseBody.map route.rewrite).flatten else route.rewrite x.responseBody.flatten := by
  rw [responseChunks]
  by_cases hst : route.streaming = true
  · rw [if_pos hst, if_pos hst]
    exact joined_streamedChunks route _ _
  · rw [if_neg hst, if_neg hst]
    split_ifs with hb
    · rw [hb.1]
      exact (rewriteModelName_nil _ _).symm
    · exact joined_buildChunkedBodyResponses _ _

theorem onlyLastEnds_responseChunks : OnlyLastEnds (x.responseChunks route) := by
  have hnil : OnlyLastEnds [] := fun c hc => absurd hc List.not_mem_nil
  rw [responseChunks]
  split_ifs
  · by_cases hb : x.responseBody = []
    · rw [hb]
      exact hnil
    · exact (endsWith_streamedChunks route _ hb).onlyLastEnds
  · exact hnil
  · exact (endsWith_buildChunkedBodyResponses _ _).onlyLastEnds

end Exchange

/-- **The answer protocol.** For every exchange the director succeeds with, the
messages sent are: the answer to the request's headers, the chunks of the final
request body, the answer to the response's headers, the chunks of the received
response body with the model's name rewritten, and the answer to the trailers
if there are any. The length of the final body is announced unless the body is
empty. -/
theorem exchange_answered_in_order (s : Server P N) (x : Exchange) (ms : List (Input N))
    (hms : ms.map (·.1.request) = x.messages) (hok : s.NoErrors (Process.init none) ms) :
    ∃ p hs hs' reqChunks respChunks,
      run s.step (Process.init none) (ms.map fun m => .recv m.1 m.2) = some p ∧ p.returned = none ∧
      p.srv.sent.map ProcessingResponse.response =
        .requestHeaders true hs :: reqChunks.map .requestBody ++
          .responseHeaders hs' :: (respChunks.map .responseBody ++ if x.trailers then [.responseTrailers] else []) ∧
      joined reqChunks = p.reqCtx.rawBody ∧
      announced hs = (if p.reqCtx.rawBody = [] then [] else [(contentLengthKey, itoa p.reqCtx.rawBody.length)]) ∧
      joined respChunks = (if p.reqCtx.modelServerStreaming then
        (x.responseBody.map (rewriteModelName · p.reqCtx.targetModelName p.reqCtx.incomingModelName)).flatten
        else rewriteModelName x.responseBody.flatten p.reqCtx.targetModelName p.reqCtx.incomingModelName) ∧
      OnlyLastEnds reqChunks ∧ OnlyLastEnds respChunks := by
  have hrun := Server.run_of_noErrors ms hok rfl rfl
  obtain ⟨metadata, hs, hsent, hempty, hlen⟩ := Server.feed_exchange hms hok
  exact ⟨_, hs, _, x.requestChunks _, x.responseChunks _, hrun, hsent.returned, hsent.sent,
    x.joined_requestChunks hempty, hlen, x.joined_responseChunks _, x.onlyLastEnds_requestChunks _,
    x.onlyLastEnds_responseChunks _⟩

def emptyExchange : Exchange where
  requestHeaders := []
  requestBody := [[]]
  responseHeaders := []
  responseBody := [str "hi"]
  trailers := false

def emptyInputs : List (Input Empty) :=
  emptyExchange.messages.map fun request => ({ request }, routeToA)

/-- The content length of an empty body is not announced. -/
theorem empty_body_unannounced : emptyInputs.map (·.1.request) = emptyExchange.messages ∧
    (passthrough []).NoErrors (Process.init none) emptyInputs ∧
    ∃ p hs, run (passthrough []).step (Process.init none) (emptyInputs.map fun m => .recv m.1 m.2) = some p ∧
      .requestHeaders true hs ∈ p.srv.sent.map ProcessingResponse.response ∧ announced hs = [] := by
  refine ⟨by decide, by decide +kernel, ?_⟩
  have h : (run (passthrough []).step (Process.init none) (emptyInputs.map fun m => .recv m.1 m.2)).any
      (fun p => p.srv.sent.any fun m => match m.response with
        | .requestHeaders true hs => announced hs = []
        | _ => false) = true := by decide +kernel
  obtain ⟨p, hp, hq⟩ := (Option.any_eq_true ..).mp h
  obtain ⟨m, hm, hhs⟩ := List.any_eq_true.mp hq
  split at hhs
  · next hs hresp => exact ⟨p, hs, hp, List.mem_map.mpr ⟨m, hm, hresp⟩, of_decide_eq_true hhs⟩
  · cases hhs

/-- A streamed response in two chunks, with trailers. -/
def streamedExchange : Exchange where
  requestHeaders := []
  requestBody := [str "he", str "llo"]
  responseHeaders := [eventStream]
  responseBody := [str "a", str "b"]
  trailers := true

theorem exchange_answered_in_order_streamed :
    ∃ (p : Process Empty Empty) (hs hs' : List (Bytes × Bytes)) (reqChunks respChunks : List StreamedBodyResponse),
    run (passthrough [] : Server Empty Empty).step (Process.init none)
      ((streamedExchange.messages.map fun request => (({ request }, routeToA) : Input Empty)).map
        fun m => .recv m.1 m.2) = some p ∧
      p.srv.sent.map ProcessingResponse.response =
        .requestHeaders true hs :: reqChunks.map .requestBody ++
          .responseHeaders hs' :: (respChunks.map .responseBody ++ [.responseTrailers]) ∧
      joined reqChunks = p.reqCtx.rawBody := by
  obtain ⟨p, hs, hs', reqChunks, respChunks, hrun, -, hsent, hreq, -⟩ :=
    exchange_answered_in_order (passthrough [] : Server Empty Empty) streamedExchange
      (streamedExchange.messages.map fun request => ({ request }, routeToA)) (by decide) (by decide +kernel)
  exact ⟨p, hs, hs', reqChunks, respChunks, hrun, hsent, hreq⟩

end InferenceScheduler.Handlers
