/-
The connectors of the routing sidecar as programs of goroutines
(`connector_nixlv2.go`, `connector_shared_storage.go`, `connector_sglang.go`,
`connector_epd_shared_storage.go`, `chat_completions.go`).

A call of a reverse proxy is answered by the calls that the upstream's response
makes on the response writer. Texts of foreign errors, random identifiers and
what `tryDecodeStreaming` sees of an unfinished response are the environment's.
-/
import InferenceScheduler.Lib.Goroutine
import InferenceScheduler.Sidecar.Http
import InferenceScheduler.Sidecar.Proxy

namespace InferenceScheduler.Sidecar

inductive KVConnector
  | nixlV2
  | sharedStorage
  | sglang
  deriving DecidableEq, Repr

inductive APIType
  | chatCompletions
  | responses
  deriving DecidableEq, Repr

/-- `rank` is the decoder of another data-parallel rank. -/
inductive Upstream
  | prefiller (url : URL)
  | encoder (url : URL)
  | decoder
  | rank (hostPort : GoString)

/-- `server`: its context carries the HTTP server (`http.ServerContextKey`). -/
structure OutRequest where
  header : Header
  body : Text
  server : Bool

/-- The client's, a `bufferedResponseWriter`, or a `responseWriterWithBuffer` around
the client's. -/
inductive Writer
  | client
  | buffered
  | inspected
  deriving DecidableEq, Repr

/-- What `tryDecode` returns: prefill is needed, an error, or neither. -/
inductive Verdict
  | prefill
  | failed
  | succeeded
  deriving DecidableEq, Repr

inductive Call
  /-- `ServeHTTP` of a reverse proxy. -/
  | proxy (upstream : Upstream) (req : OutRequest) (writer : Writer)
  /-- Calls of the handler itself on the client's writer. -/
  | answer (calls : List WriterCall)
  /-- The inspection in `tryDecodeStreaming`. -/
  | inspect
  /-- `wg.Wait()` in `fanoutEncoderPrimer`, and the first error. -/
  | gather

abbrev Call.Reply : Call → Type
  | .proxy .. => List WriterCall
  | .answer _ => Unit
  | .inspect => Verdict
  | .gather => Option Text

instance : ∀ c : Call, Nonempty c.Reply
  | .proxy .. => ⟨([] : List WriterCall)⟩
  | .answer _ => ⟨()⟩
  | .inspect => ⟨Verdict.failed⟩
  | .gather => ⟨(none : Option Text)⟩

abbrev Program := Prog Call Call.Reply

/-- A request as the connectors read it; its body may fail to be read. -/
structure HttpRequest where
  header : Header
  body : Except Text Text

/-- The identifiers of `runEPDProtocol` and `runNIXLProtocolV2`, and the SGLang room. -/
structure Draws where
  requestID : Except Text Text
  uuid : Except Text Text
  roomID : Nat

/-- What the connectors read of the server, and what is outside of it. -/
structure Env (N : Type) where
  numbers : Json.NumberFormat N
  /-- The error of `json.Unmarshal` on a text. -/
  jsonError : Text → Text
  /-- The error of `createProxyHandler`. -/
  urlError : GoString → Text
  isIPv6 : GoString → Bool
  proxies : Role → ProxyCache
  kvConnector : KVConnector
  forwardDataParallel : Bool
  dataParallelProxies : GoString → Bool
  sglangBootstrapPort : Nat
  /-- The client's writer is an `http.Flusher`. -/
  flushable : Bool

abbrev Fields (N : Type) := List (Text × Json N)

/-! ## Names -/

def requestHeaderRequestID : Text := "x-request-id".toList
def dataParallelEndpointHeader : Text := "x-data-parallel-host-port".toList
def requestFieldKVTransferParams : Text := "kv_transfer_params".toList
def requestFieldMaxTokens : Text := "max_tokens".toList
def requestFieldMaxCompletionTokens : Text := "max_completion_tokens".toList
def requestFieldMaxOutputTokens : Text := "max_output_tokens".toList
def requestFieldDoRemotePrefill : Text := "do_remote_prefill".toList
def requestFieldDoRemoteDecode : Text := "do_remote_decode".toList
def requestFieldRemoteBlockIDs : Text := "remote_block_ids".toList
def requestFieldRemoteEngineID : Text := "remote_engine_id".toList
def requestFieldRemoteHost : Text := "remote_host".toList
def requestFieldRemotePort : Text := "remote_port".toList
def requestFieldStream : Text := "stream".toList
def requestFieldStreamOptions : Text := "stream_options".toList
def requestFieldCacheHitThreshold : Text := "cache_hit_threshold".toList
def requestFieldBootstrapHost : Text := "bootstrap_host".toList
def requestFieldBootstrapPort : Text := "bootstrap_port".toList
def requestFieldBootstrapRoom : Text := "bootstrap_room".toList
def responseFieldChoices : Text := "choices".toList
def responseFieldFinishReason : Text := "finish_reason".toList
def finishReasonCacheThreshold : Text := "cache_threshold".toList
def chatCompletionsContentType : Text := "application/json".toList

open SortedMap (put delete get?)

section

variable {N : Type} (e : Env N)

/-- `json.Unmarshal` into a map: `null` leaves it nil. -/
def Env.unmarshalMap (s : Text) : Option (Option (Fields N)) :=
  match Json.unmarshal e.numbers s with
  | some .null => some none
  | some (.object m) => some (some m)
  | _ => none

/-- `json.Marshal` of a map. -/
def Env.marshalMap (m : Fields N) : Text := Json.marshal e.numbers (.object m)

/-- An integer stored in a map. -/
def Env.int (n : Nat) : Json N := .number (e.numbers.ofNat n)

/-- `prefillerProxyHandler` and `encoderProxyHandler`. -/
def Env.proxyHandler (role : Role) (hostPort : GoString) : Option URL :=
  (createProxyHandler e.isIPv6 (e.proxies role) hostPort).1

/-! ## Common parts -/

def answer (calls : List WriterCall) : Program := .call (.answer calls) fun _ => .done

/-- An upstream answers the client. -/
def forward (upstream : Upstream) (req : OutRequest) : Program :=
  .call (.proxy upstream req .client) fun _ => .done

/-- A response that failed is passed on; an empty body is not written. -/
def passOn (w : BufferedResponseWriter) : List WriterCall :=
  .writeHeader w.statusCode :: if w.buffer ≠ [] then [.write w.buffer] else []

/-- `dataParallelHandler`, when it takes the request. -/
def Env.dataParallelHandler (req : OutRequest) : Option Program :=
  let hostPort := req.header.get dataParallelEndpointHeader
  if hostPort ≠ [] then
    some (if e.dataParallelProxies hostPort then forward (.rank hostPort) req else answer [.writeHeader 400])
  else none

/-- The local decoder, or the rank the request names. -/
def Env.decode (req : OutRequest) : Program :=
  match if e.forwardDataParallel then e.dataParallelHandler req else none with
  | some p => p
  | none => forward .decoder req

/-! ## NIXL v2 -/

def tokenLimitFieldsForAPIType : APIType → List Text
  | .chatCompletions => [requestFieldMaxTokens, requestFieldMaxCompletionTokens]
  | .responses => [requestFieldMaxOutputTokens]

/-- `kv_transfer_params` of a prefill request. -/
def kvTransferParams : Json N := .object
  [(requestFieldDoRemoteDecode, .bool true), (requestFieldDoRemotePrefill, .bool false),
    (requestFieldRemoteBlockIDs, .null), (requestFieldRemoteEngineID, .null), (requestFieldRemoteHost, .null),
    (requestFieldRemotePort, .null)]

/-- The request as it is changed for the prefiller. -/
def Env.nixlPrefill (api : APIType) (m : Fields N) : Fields N :=
  let m := put requestFieldKVTransferParams kvTransferParams m
  let m := put requestFieldStream (.bool false) m
  let m := delete requestFieldStreamOptions m
  (tokenLimitFieldsForAPIType api).foldl (fun m field => put field (e.int 1) m) m

/-- A field is given back the value, or the absence, it had. -/
def restoreField (original m : Fields N) (field : Text) : Fields N :=
  match get? original field with
  | some v => put field v (delete field m)
  | none => delete field m

/-- The changed request `m` restored, with the prefiller's parameters. -/
def nixlDecode (api : APIType) (original m : Fields N) (kv : Json N) : Fields N :=
  let m := restoreField original m requestFieldStream
  let m :=
    match get? original requestFieldStreamOptions with
    | some v => put requestFieldStreamOptions v m
    | none => m
  let m := (tokenLimitFieldsForAPIType api).foldl (restoreField original) m
  put requestFieldKVTransferParams kv m

/-- The calls that copy a header to the client's. -/
def copyHeader (h : Header) : List WriterCall := h.flatMap fun x => x.2.map (.addHeader x.1)

/-- What follows the prefiller's response. -/
def Env.nixlAfterPrefill (r : HttpRequest) (original : Text) (uuid : Text) (api : APIType) (m : Fields N)
    (pw : BufferedResponseWriter) : Program :=
  if isHTTPError pw.statusCode then
    if shouldFallbackToDecode pw then forward .decoder { header := r.header, body := original, server := true }
    else answer (copyHeader pw.headers ++ [.writeHeader pw.statusCode, .write pw.buffer])
  else
    match e.unmarshalMap pw.buffer with
    | none => answer (errorJSONInvalid (e.jsonError pw.buffer))
    | some response =>
      let kv := (get? (response.getD []) requestFieldKVTransferParams).getD .null
      let body := e.marshalMap (nixlDecode api m (e.nixlPrefill api m) kv)
      e.decode { header := r.header.add requestHeaderRequestID uuid, body, server := true }

def Env.runNIXLProtocolV2 (r : HttpRequest) (d : Draws) (prefillPodHostPort : GoString) (api : APIType) : Program :=
  match r.body with
  | .error err => answer [.writeHeader 400, .write err]
  | .ok original =>
    match e.unmarshalMap original, d.uuid with
    | none, _ => answer (errorJSONInvalid (e.jsonError original))
    | some _, .error err => answer (errorBadGateway err)
    -- an assignment to a nil map panics
    | some none, .ok _ => .panic
    | some (some m), .ok uuid =>
      let body := e.marshalMap (e.nixlPrefill api m)
      match e.proxyHandler .prefiller prefillPodHostPort with
      | none => answer (errorBadGateway (e.urlError prefillPodHostPort))
      | some url =>
        .call (.proxy (.prefiller url) { header := r.header.add requestHeaderRequestID uuid, body, server := true }
          .buffered) fun response => e.nixlAfterPrefill r original uuid api m (record response)

/-! ## Shared storage -/

def hasCacheThresholdFinishReason (response : Fields N) : Bool :=
  match get? response responseFieldChoices with
  | some (.array (.object choice :: _)) =>
    match get? choice responseFieldFinishReason with
    | some (.string finishReason) => finishReason = finishReasonCacheThreshold
    | _ => false
  | _ => false

/-- `prefill`, and what follows when it succeeds. -/
def Env.prefill (r : HttpRequest) (prefillPodHostPort : GoString) (request : Option (Fields N)) (next : Program) :
    Program :=
  match request with
  | none => .panic
  | some m =>
    let m := put requestFieldMaxTokens (e.int 1) m
    let m := put requestFieldMaxCompletionTokens (e.int 1) m
    let m := put requestFieldCacheHitThreshold (e.int 0) m
    match e.proxyHandler .prefiller prefillPodHostPort with
    | none => answer (errorBadGateway (e.urlError prefillPodHostPort))
    | some url =>
      .call (.proxy (.prefiller url) { header := r.header, body := e.marshalMap m, server := true } .buffered)
        fun response =>
          let pw := record response
          if isHTTPError pw.statusCode then answer (passOn pw) else next

/-- The prefill and the decode request after it. -/
def Env.prefillThenDecode (r : HttpRequest) (prefillPodHostPort : GoString) (request : Option (Fields N)) : Program :=
  e.prefill r prefillPodHostPort request <|
    forward .decoder { header := r.header
                       body := e.marshalMap (put requestFieldCacheHitThreshold (e.int 0) (request.getD []))
                       server := true }

/-- `tryDecodeBuffered`'s verdict on the decoder's response, and its calls on the
client's writer. -/
def Env.inspectBuffered (dw : BufferedResponseWriter) : Verdict × List WriterCall :=
  if isHTTPError dw.statusCode then (.failed, passOn dw)
  else
    match e.unmarshalMap dw.buffer with
    | none => (.failed, errorInternalServerError (e.jsonError dw.buffer))
    | some response =>
      if hasCacheThresholdFinishReason (response.getD []) then (.prefill, [])
      else (.succeeded, dw.headers.map (fun x => .setHeader x.1 x.2) ++ [.write dw.buffer])

/-- `tryDecode` decodes through a `responseWriterWithBuffer`. -/
def Env.streams (request : Fields N) : Bool :=
  match get? request requestFieldStream with
  | some (.bool isStreaming) => isStreaming && e.flushable
  | _ => false

/-- `tryDecode`; `next` is what follows when prefill is needed. -/
def Env.tryDecode (req : OutRequest) (request : Fields N) (next : Program) : Program :=
  if e.streams request then
    .go false (.call (.proxy .decoder req .inspected) fun _ => .done) <|
      .call .inspect fun (verdict : Verdict) => if verdict = .prefill then next else .done
  else
    .call (.proxy .decoder req .buffered) fun response =>
      match e.inspectBuffered (record response) with
      | (.prefill, _) => next
      | (_, calls) => answer calls

def Env.runSharedStorageProtocol (r : HttpRequest) (prefillPodHostPort : GoString) : Program :=
  match r.body with
  | .error err => answer [.writeHeader 400, .write err]
  | .ok original =>
    match e.unmarshalMap original with
    | none => answer (errorJSONInvalid (e.jsonError original))
    | some request =>
      let next := e.prefillThenDecode r prefillPodHostPort request
      if (get? (request.getD []) requestFieldCacheHitThreshold).isSome then
        e.tryDecode { header := r.header, body := original, server := true } (request.getD []) next
      else next

/-! ## SGLang -/

def Env.addSGLangBootstrapInfo (m : Fields N) (prefillHostPort : GoString) (roomID : Nat) : Fields N :=
  let m := put requestFieldBootstrapHost (.string (prefillHostPort.takeWhile (· ≠ ':'))) m
  let m := put requestFieldBootstrapPort (e.int e.sglangBootstrapPort) m
  put requestFieldBootstrapRoom (e.int roomID) m

/-- The prefill request keeps the values of the client request's context
(`context.WithoutCancel`); its goroutine recovers. -/
def Env.runSGLangProtocol (r : HttpRequest) (d : Draws) (prefillPodHostPort : GoString) : Program :=
  match r.body with
  | .error err => answer (errorJSONInvalid ("failed to read request body: ".toList ++ err))
  | .ok original =>
    match e.unmarshalMap original with
    | none => answer (errorJSONInvalid ("failed to parse request body: ".toList ++ e.jsonError original))
    | some request =>
      let body := e.marshalMap (e.addSGLangBootstrapInfo (request.getD []) prefillPodHostPort d.roomID)
      let req : OutRequest := { header := r.header, body, server := true }
      match e.proxyHandler .prefiller prefillPodHostPort with
      | none => answer (errorBadGateway (e.urlError prefillPodHostPort))
      | some url => .go true (.call (.proxy (.prefiller url) req .buffered) fun _ => .done) (forward .decoder req)

/-- The configured `runPDConnectorProtocol`. -/
def Env.runPDConnectorProtocol (r : HttpRequest) (d : Draws) (prefillPodHostPort : GoString) (api : APIType) : Program :=
  match e.kvConnector with
  | .sharedStorage => e.runSharedStorageProtocol r prefillPodHostPort
  | .sglang => e.runSGLangProtocol r d prefillPodHostPort
  | .nixlV2 => e.runNIXLProtocolV2 r d prefillPodHostPort api

/-! ## Encoders -/

def mmTypes : List Text := ["image_url".toList, "audio_url".toList, "input_audio".toList]

/-- The item of a message's content that needs an encoder. -/
def mmItem : Json N → Option (Fields N)
  | .object item =>
    match get? item "type".toList with
    | some (.string itemType) => if itemType ∈ mmTypes then some item else none
    | _ => none
  | _ => none

def mmItemsOfMessage : Json N → List (Fields N)
  | .object msg =>
    match get? msg "content".toList with
    | some (.array content) => content.filterMap mmItem
    | _ => []
  | _ => []

def extractMMItems (request : Fields N) : List (Fields N) :=
  match get? request "messages".toList with
  | some (.array messages) => messages.flatMap mmItemsOfMessage
  | _ => []

/-- The URL of an item under the name of its type. -/
def urlUnder (item : Fields N) (itemType : Text) : Text :=
  match get? item itemType with
  | some (.object m) =>
    match get? m "url".toList with
    | some (.string u) => u
    | _ => []
  | _ => []

def mmItemURL (item : Fields N) : Text :=
  match get? item "type".toList with
  | some (.string itemType) =>
    if itemType = "image_url".toList ∨ itemType = "audio_url".toList then urlUnder item itemType else []
  | _ => []

/-- Items without the repetitions of a URL in `seenURLs` or earlier. -/
def dropSeenURLs (seenURLs : List Text) : List (Fields N) → List (Fields N)
  | [] => []
  | item :: items =>
    let url := mmItemURL item
    if url = [] then item :: dropSeenURLs seenURLs items
    else if url ∈ seenURLs then dropSeenURLs seenURLs items
    else item :: dropSeenURLs (url :: seenURLs) items

def Env.buildEncoderRequest (request item : Fields N) : Fields N :=
  let message := .object [("content".toList, .array [.object item]), ("role".toList, .string "user".toList)]
  let m := put "messages".toList (.array [message]) request
  let m := put requestFieldMaxTokens (e.int 1) m
  let m := put requestFieldStream (.bool false) m
  delete requestFieldStreamOptions m

/-- The goroutine of one item; its request has no client context. -/
def Env.primeEncoder (request : Fields N) (requestID : Text) (hostPort : GoString) (item : Fields N) (idx : Nat) :
    Program :=
  match e.proxyHandler .encoder hostPort with
  | none => .done
  | some url =>
    let header := Header.add [] "content-type".toList chatCompletionsContentType
    let header := header.add requestHeaderRequestID (requestID ++ "-enc-".toList ++ Nat.toDigits 10 idx)
    let req : OutRequest := { header, body := e.marshalMap (e.buildEncoderRequest request item), server := false }
    .call (.proxy (.encoder url) req .buffered) fun _ => .done

/-- `fanoutEncoderPrimer`; `next` is what follows without an error. -/
def Env.fanoutEncoderPrimer (request : Fields N) (encoderHostPorts : List GoString) (requestID : Text)
    (next : Program) : Program :=
  let allItems := extractMMItems request
  if allItems = [] then next
  else
    let join : Program := .call .gather fun err =>
      match err with
      | some err => answer (errorBadGateway err)
      | none => next
    (dropSeenURLs [] allItems).zipIdx.foldr
      (fun x rest =>
        .go false (e.primeEncoder request requestID (encoderHostPorts.getD (x.2 % encoderHostPorts.length) []) x.1 x.2)
          rest) join

def Env.runEPDProtocol (r : HttpRequest) (d : Draws) (prefillEndPoint : GoString) (encodeEndPoints : List GoString) :
    Program :=
  match r.body with
  | .error err => answer [.writeHeader 400, .write err]
  | .ok original =>
    match e.unmarshalMap original, d.requestID with
    | none, _ => answer (errorJSONInvalid (e.jsonError original))
    | some _, .error err => answer (errorBadGateway err)
    | some request, .ok requestID =>
      let next : Program :=
        match request with
        | none => .panic
        | some m =>
          let body := e.marshalMap (put requestFieldCacheHitThreshold (e.int 0) m)
          let header := r.header.add requestHeaderRequestID requestID
          if prefillEndPoint ≠ [] then
            e.runPDConnectorProtocol { header, body := .ok body } d prefillEndPoint .chatCompletions
          else e.decode { header, body, server := true }
      if encodeEndPoints ≠ [] then e.fanoutEncoderPrimer (request.getD []) encodeEndPoints requestID next else next

/-- `disaggregatedPrefillHandler` and the connector it chooses. -/
def Env.handle (cfg : Config) (av : AllowlistValidator) (route : Request) (r : HttpRequest) (d : Draws)
    (api : APIType) : Program :=
  match disaggregatedPrefillHandler cfg av route with
  | .forbidden => answer (httpError "Forbidden: prefill target not allowed by SSRF protection".toList 403)
  | .encodePrefill hostPort encoders => e.runEPDProtocol r d hostPort encoders
  | .prefill hostPort => e.runPDConnectorProtocol r d hostPort api
  | .decodeOnly => e.decode { header := r.header, body := r.body.toOption.getD [], server := true }

end

end InferenceScheduler.Sidecar
