/-
`StreamingServer.Process`: one ext_proc stream of the endpoint picker, from the
request's headers to the last message of the response.

The label of a step is what the main loop's `select` takes: a message with what
the collaborators answer to it (`Decisions`), a receive error, an eviction or
the end of the context. `Send` may fail from any message on (`Stream.accepts`).
Metrics and logs are left out, and so is what only they read.
-/
import InferenceScheduler.Handlers.Chunking
import InferenceScheduler.Lib.Base64
import InferenceScheduler.Lib.Json
import InferenceScheduler.Lib.Run

namespace InferenceScheduler.Handlers

open SortedMap

/-! ## Messages -/

/-- `configPb.HeaderValue`. -/
structure HeaderValue where
  key : Bytes
  value : Bytes := []
  rawValue : Bytes := []
  deriving DecidableEq, Repr

def getHeaderValue (header : HeaderValue) : Bytes :=
  if header.rawValue = [] then header.value else header.rawValue

/-- `map[string]string`. -/
abbrev Headers := List (Bytes × Bytes)

inductive Message
  | requestHeaders (headers : List HeaderValue) (endOfStream : Bool)
  | requestBody (body : Bytes) (endOfStream : Bool)
  | requestTrailers
  | responseHeaders (headers : List HeaderValue) (endOfStream : Bool)
  | responseBody (body : Bytes) (endOfStream : Bool)
  | responseTrailers
  deriving DecidableEq, Repr

/-- `extProcPb.ProcessingRequest`; the metadata by filter namespace. -/
structure ProcessingRequest (N : Type) where
  request : Message
  metadataContext : List (Text × Json N) := []

/-- `structpb.Value` as the answers hold it. -/
inductive MetadataValue
  | string (s : Bytes)
  | number (n : Int)
  deriving DecidableEq, Repr

/-- `structpb.Struct` with one level of namespaces. -/
abbrev Struct := List (Bytes × List (Bytes × MetadataValue))

inductive Answer
  | requestHeaders (clearRouteCache : Bool) (setHeaders : List (Bytes × Bytes))
  | requestBody (chunk : StreamedBodyResponse)
  | requestTrailers
  | responseHeaders (setHeaders : List (Bytes × Bytes))
  | responseBody (chunk : StreamedBodyResponse)
  | responseTrailers
  | immediateResponse (status : Nat) (body : Bytes)
  deriving DecidableEq, Repr

structure ProcessingResponse where
  response : Answer
  dynamicMetadata : Option Struct := none
  deriving DecidableEq, Repr

/-- What has been sent, and how many more messages `Send` takes before it fails. -/
structure Stream where
  sent : List ProcessingResponse := []
  accepts : Option Nat := none
  deriving DecidableEq, Repr

def Stream.send (srv : Stream) (m : ProcessingResponse) : Bool × Stream :=
  match srv.accepts with
  | some 0 => (false, srv)
  | accepts => (true, { sent := srv.sent ++ [m], accepts := accepts.map (· - 1) })

/-- Sends the messages in order up to the first failure. -/
def Stream.sendAll (srv : Stream) : List ProcessingResponse → Bool × Stream
  | [] => (true, srv)
  | m :: ms =>
    match srv.send m with
    | (true, srv) => srv.sendAll ms
    | (false, srv) => (false, srv)

/-! ## Errors -/

/-- `errcommon.Error`'s codes. -/
inductive Code
  | unknown
  | badRequest
  | unauthorized
  | forbidden
  | notFound
  | internal
  | serviceUnavailable
  | modelServerError
  | resourceExhausted
  deriving DecidableEq, Repr

def Code.text : Code → Bytes
  | .unknown => str "Unknown"
  | .badRequest => str "BadRequest"
  | .unauthorized => str "Unauthorized"
  | .forbidden => str "Forbidden"
  | .notFound => str "NotFound"
  | .internal => str "Internal"
  | .serviceUnavailable => str "ServiceUnavailable"
  | .modelServerError => str "ModelServerError"
  | .resourceExhausted => str "ResourceExhausted"

/-- An error; one that is not an `errcommon.Error` has the code `Unknown`. -/
structure Error where
  code : Code
  msg : Bytes
  deriving DecidableEq, Repr

def Error.error (e : Error) : Bytes := str "inference error: " ++ e.code.text ++ str " - " ++ e.msg

def Code.httpCode : Code → Option Nat
  | .badRequest => some 400
  | .unauthorized => some 401
  | .forbidden => some 403
  | .notFound => some 404
  | .resourceExhausted => some 429
  | .internal => some 500
  | .serviceUnavailable => some 503
  | .unknown | .modelServerError => none

def buildErrResponse (e : Error) : Option ProcessingResponse :=
  e.code.httpCode.map fun status => { response := .immediateResponse status e.error }

/-! ## The request context -/

/-- `types.NamespacedName`; Kubernetes allows no slash in a namespace. -/
structure NamespacedName where
  namespace_ : Bytes
  name : Bytes
  plain : 0x2f ∉ namespace_
  deriving DecidableEq

def NamespacedName.string (n : NamespacedName) : Bytes := n.namespace_ ++ 0x2f :: n.name

structure EndpointMetadata where
  namespacedName : NamespacedName
  address : Bytes
  port : Bytes
  deriving DecidableEq

/-- `net.JoinHostPort`. -/
def joinHostPort (host port : Bytes) : Bytes :=
  if 0x3a ∈ host then str "[" ++ host ++ str "]:" ++ port else host ++ str ":" ++ port

/-- `fwkrh.Usage`. -/
structure Usage where
  promptTokens : Int := 0
  completionTokens : Int := 0
  totalTokens : Int := 0
  promptTokenDetails : Option Int := none
  deriving DecidableEq, Repr

/-- `fwkrh.RequestPayload`; what a parsed map holds is left to the parser. -/
inductive Payload (P : Type)
  | payloadMap (m : P)
  | payloadProto
  | rawPayload
  | other

structure InferenceRequestBody (P : Type) where
  payload : Payload P
  stream : Bool

inductive StreamRequestState
  | requestReceived
  | headerRequestResponseComplete
  | bodyRequestResponsesComplete
  | trailerRequestResponsesComplete
  | responseReceived
  | headerResponseResponseComplete
  | bodyResponseResponsesComplete
  | trailerResponseResponsesComplete
  | requestEvicted
  deriving DecidableEq, Repr

structure RequestContext (P N : Type) where
  targetPod : Option EndpointMetadata := none
  targetEndpoint : Bytes := []
  incomingModelName : Bytes := []
  targetModelName : Bytes := []
  fairnessID : Bytes := []
  objectiveKey : Bytes := []
  priority : Int := 0
  requestSize : Nat := 0
  usage : Usage := {}
  responseBodyStarted : Bool := false
  responseComplete : Bool := false
  /-- `Request.Headers`, `Request.RawBody` and `Request.Metadata` -/
  requestHeaders : Headers := []
  rawBody : Bytes := []
  metadata : List (Text × Json N) := []
  /-- The body of `SchedulingRequest`, once there is one. -/
  schedulingRequest : Option (InferenceRequestBody P) := none
  requestState : StreamRequestState := .requestReceived
  modelServerStreaming : Bool := false
  /-- `Response.Headers` and `Response.DynamicMetadata` -/
  responseHeaders : Headers := []
  dynamicMetadata : Option Struct := none
  reqHeaderResp : Option ProcessingResponse := none
  reqBodyResp : List ProcessingResponse := []
  reqTrailerResp : Option ProcessingResponse := none
  respHeaderResp : Option ProcessingResponse := none
  respBodyResp : List ProcessingResponse := []
  respTrailerResp : Option ProcessingResponse := none

variable {P N : Type}

/-! ## The answers -/

def flowFairnessIDKey : Bytes := str "x-gateway-inference-fairness-id"
def objectiveKeyHeader : Bytes := str "x-gateway-inference-objective"
def modelNameRewriteKey : Bytes := str "x-gateway-model-name-rewrite"
def subsetFilterKey : Bytes := str "x-gateway-destination-endpoint-subset"
def destinationEndpointKey : Bytes := str "x-gateway-destination-endpoint"
def destinationEndpointServedKey : Bytes := str "x-gateway-destination-endpoint-served"
def destinationEndpointNamespace : Bytes := str "envoy.lb"
def defaultFairnessID : Bytes := str "default-flow"
def requestIdHeaderKey : Bytes := str "x-request-id"
def contentLengthKey : Bytes := str "Content-Length"

def inputControlHeaders : List Bytes := [flowFairnessIDKey, objectiveKeyHeader, modelNameRewriteKey, subsetFilterKey]
def outputInjectionHeaders : List Bytes := [destinationEndpointKey, destinationEndpointServedKey]
def protocolHeaders : List Bytes := [str "content-length"]

def isSystemOwnedHeader (key : Bytes) : Bool :=
  toLower key ∈ inputControlHeaders || toLower key ∈ outputInjectionHeaders || toLower key ∈ protocolHeaders

/-- `strconv.Itoa`. -/
def itoa (n : Nat) : Bytes := utf8 (Nat.toDigits 10 n)

/-- What the propagators inject: W3C trace context and baggage. -/
structure TraceHeaders where
  traceparent : Option Bytes := none
  tracestate : Option Bytes := none
  baggage : Option Bytes := none

def TraceHeaders.list (t : TraceHeaders) : List (Bytes × Bytes) :=
  (t.traceparent.map (str "traceparent", ·)).toList ++ (t.tracestate.map (str "tracestate", ·)).toList ++
    (t.baggage.map (str "baggage", ·)).toList

def generateHeaders (r : RequestContext P N) (trace : TraceHeaders) : List (Bytes × Bytes) :=
  (destinationEndpointKey, r.targetEndpoint) ::
    ((if 0 < r.requestSize then [(contentLengthKey, itoa r.requestSize)] else []) ++ trace.list ++
      r.requestHeaders.filter fun h => !isSystemOwnedHeader h.1)

def generateMetadata (endpoint : Bytes) : Struct :=
  [(destinationEndpointNamespace, [(destinationEndpointKey, .string endpoint)])]

def generateRequestHeaderResponse (r : RequestContext P N) (trace : TraceHeaders) : ProcessingResponse where
  response := .requestHeaders true (generateHeaders r trace)
  dynamicMetadata :=
    some ((r.dynamicMetadata.getD []).foldl (fun m x => put x.1 x.2 m) (generateMetadata r.targetEndpoint))

def generateRequestBodyResponses (body : Bytes) : List ProcessingResponse :=
  (buildChunkedBodyResponses body true).map fun c => { response := .requestBody c }

def generateResponseHeaders (r : RequestContext P N) : List (Bytes × Bytes) :=
  (str "x-went-into-resp-headers", str "true") :: r.responseHeaders.filter fun h => !isSystemOwnedHeader h.1

def generateResponseHeaderResponse (r : RequestContext P N) : ProcessingResponse where
  response := .responseHeaders (generateResponseHeaders r)

/-- The dynamic metadata goes with the last chunk. -/
def attachLast (dynamicMetadata : Option Struct) : List ProcessingResponse → List ProcessingResponse
  | [] => []
  | [m] => [if dynamicMetadata.isSome then { m with dynamicMetadata } else m]
  | m :: ms => m :: attachLast dynamicMetadata ms

def generateResponseBodyResponses (body : Bytes) (setEoS : Bool) (dynamicMetadata : Option Struct) :
    List ProcessingResponse :=
  attachLast dynamicMetadata ((buildChunkedBodyResponses body setEoS).map fun c => { response := .responseBody c })

/-- The quoted name after the key `model`, with `gap` after the colon. -/
def modelField (gap : String) (name : Bytes) : Bytes :=
  str "\"model\":" ++ str gap ++ str "\"" ++ name ++ str "\""

def rewriteModelName (body targetModel incomingModel : Bytes) : Bytes :=
  if targetModel = [] ∨ incomingModel = [] ∨ targetModel = incomingModel then body
  else
    let result := replaceAll (modelField "" targetModel) (modelField "" incomingModel) body
    if result ≠ body then result
    else replaceAll (modelField " " targetModel) (modelField " " incomingModel) body

/-! ## The director -/

/-- The response as the response plugins see it. -/
structure FwkResponse (N : Type) where
  headers : Headers
  startOfStream : Bool := false
  endOfStream : Bool := false
  reqMetadata : List (Text × Json N) := []
  usage : Usage := {}
  dynamicMetadata : Option Struct := none

def conformanceTestResultHeader : Bytes := str "x-conformance-test-served-endpoint"

/-- The plugins with a `ResponseHeader` hook. -/
inductive ResponseHeaderPlugin
  | predictedLatency
  | destinationEndpointServedVerifier
  deriving DecidableEq, Repr

def servedEndpoint (reqMetadata : List (Text × Json N)) : Bytes :=
  match get? reqMetadata "envoy.lb".toList with
  | some (.object lbMetadata) =>
    match get? lbMetadata "x-gateway-destination-endpoint-served".toList with
    | some (.string actualEndpoint) => utf8 actualEndpoint
    | _ => str "fail: missing destination endpoint served metadata"
  | _ => str "fail: missing envoy lb metadata"

def ResponseHeaderPlugin.responseHeader : ResponseHeaderPlugin → FwkResponse N → FwkResponse N
  | .predictedLatency, response => response
  | .destinationEndpointServedVerifier, response =>
    { response with headers := put conformanceTestResultHeader (servedEndpoint response.reqMetadata) response.headers }

/-- The plugins with a `ResponseBody` hook: they write a header, an entry of the
dynamic metadata, or nothing. -/
inductive ResponseBodyPlugin
  | sessionAffinity
  | requestAttributeReporter (namespace_ name : Bytes) (calculateValue : Usage → Option Int)
  | other

def sessionTokenHeader : Bytes := str "x-session-token"

/-- The session token of a pod. -/
def sessionToken (pod : EndpointMetadata) : Bytes := Base64.encode pod.namespacedName.string

/-- `SessionAffinity.ResponseBody`. -/
def sessionAffinityResponseBody (response : FwkResponse N) (targetPod : Option EndpointMetadata) : FwkResponse N :=
  if response.endOfStream then
    match targetPod with
    | none => response
    | some pod => { response with headers := put sessionTokenHeader (sessionToken pod) response.headers }
  else response

def ResponseBodyPlugin.responseBody (targetPod : Option EndpointMetadata) :
    ResponseBodyPlugin → FwkResponse N → FwkResponse N
  | .sessionAffinity, response => sessionAffinityResponseBody response targetPod
  | .requestAttributeReporter namespace_ name calculateValue, response =>
    match calculateValue response.usage with
    | none => response
    | some value =>
      let fields := response.dynamicMetadata.getD []
      let entries := (get? fields namespace_).getD []
      { response with dynamicMetadata := some (put namespace_ (put name (.number value) entries) fields) }
  | .other, response => response

/-- The endpoints of the primary profile, of which there is one at least. -/
structure SchedulingResult where
  targetEndpoints : List EndpointMetadata
  nonempty : targetEndpoints ≠ []

/-- What the collaborators answer while a message is handled. -/
structure Decisions where
  /-- `uuid.NewString` -/
  requestID : Bytes := []
  /-- `GetRandomEndpoint` -/
  randomEndpoint : Option EndpointMetadata := none
  /-- the model a rewrite rule selects, if there is a rule -/
  modelRewrite : Option Bytes := none
  /-- the priority of the objective, if there is one with a priority -/
  objectivePriority : Option Int := none
  /-- `admissionController.Admit` -/
  admission : Option Error := none
  /-- `endpointCandidates.Locate` -/
  candidates : List EndpointMetadata := []
  /-- the admission plugins -/
  admitted : Bool := true
  /-- `scheduler.Schedule`: an error's text, or the result, which may be nil -/
  schedule : Except Bytes (Option SchedulingResult) := .ok none
  /-- what the PreRequest plugins write into the request's headers -/
  preRequestHeaders : List (Bytes × Bytes) := []
  trace : TraceHeaders := {}
  /-- `evictionLookup.Get` finds a channel -/
  evictChannel : Bool := false

/-- The server with what it is configured with. -/
structure Server (P N : Type) where
  /-- `bodyMap["model"].(string)` -/
  model : P → Option Bytes
  /-- `bodyMap["model"] = name` -/
  setModel : Bytes → P → P
  /-- `json.Marshal` -/
  marshal : P → Option Bytes
  parseRequest : Bytes → Headers → Except Bytes (InferenceRequestBody P)
  parseResponse : Bytes → Headers → Bool → Except Bytes (Option Usage)
  responseReceivedPlugins : List ResponseHeaderPlugin := []
  responseStreamingPlugins : List ResponseBodyPlugin := []
  /-- an eviction lookup is set -/
  evictionLookup : Bool := false

namespace Server

variable (s : Server P N)

def mutateModel (r : RequestContext P N) (bodyMap : P) (d : Decisions) :
    Except (RequestContext P N × Error) (RequestContext P N × P) :=
  match s.model bodyMap with
  | none =>
    .error ({ r with incomingModelName := [] }, { code := .badRequest, msg := str "model not found in request body" })
  | some name =>
    let target := if r.targetModelName = [] then name else r.targetModelName
    let target := d.modelRewrite.getD target
    .ok ({ r with incomingModelName := name, targetModelName := target }, s.setModel target bodyMap)

def modelRewriteIfNeeded (r : RequestContext P N) (body : InferenceRequestBody P) (d : Decisions) :
    Except (RequestContext P N × Error) (RequestContext P N × InferenceRequestBody P) :=
  match body.payload with
  | .payloadMap m => (s.mutateModel r m d).map fun x => (x.1, { body with payload := .payloadMap x.2 })
  | _ => .ok (r, body)

def prepareRequest (r : RequestContext P N) (result : Option SchedulingResult) (d : Decisions) :
    Except (RequestContext P N × Error) (RequestContext P N) :=
  match result with
  | none => .error (r, { code := .internal, msg := str "results must be greater than zero" })
  | some result =>
    let endpoints := result.targetEndpoints.map fun pod => joinHostPort pod.address pod.port
    .ok { r with
      targetPod := some (result.targetEndpoints.head result.nonempty)
      targetEndpoint := (str ",").intercalate endpoints
      requestHeaders := d.preRequestHeaders.foldl (fun m x => put x.1 x.2 m) r.requestHeaders }

def repackage (r : RequestContext P N) (body : InferenceRequestBody P) :
    Except (RequestContext P N × Error) (RequestContext P N) :=
  match body.payload with
  | .payloadMap m =>
    match s.marshal m with
    | none => .error (r, { code := .internal, msg := str "Error marshalling request body" })
    | some requestBodyBytes => .ok { r with rawBody := requestBodyBytes, requestSize := requestBodyBytes.length }
  | .payloadProto | .rawPayload => .ok { r with requestSize := r.rawBody.length }
  | .other => .error (r, { code := .badRequest, msg := str "Unsupported llmRequest parsedBody" })

/-- `HandleRequest` from the admission on. -/
def admitAndSchedule (r : RequestContext P N) (body : InferenceRequestBody P) (d : Decisions) :
    Except (RequestContext P N × Error) (RequestContext P N) :=
  match d.admission with
  | some e => .error (r, e)
  | none =>
    if d.candidates = [] then
      .error (r, { code := .serviceUnavailable,
                   msg := str "failed to find endpoint candidates for serving the request" })
    else if !d.admitted then
      .error (r, { code := .internal, msg := str "request cannot be admitted" })
    else
      match d.schedule with
      | .error msg => .error (r, { code := .resourceExhausted, msg := str "failed to find target endpoint: " ++ msg })
      | .ok result =>
        match prepareRequest r result d with
        | .error x => .error x
        | .ok r => s.repackage r body

/-- `Director.HandleRequest`; the context is returned in the error case too. -/
def handleRequest (r : RequestContext P N) (body : InferenceRequestBody P) (d : Decisions) :
    Except (RequestContext P N × Error) (RequestContext P N) :=
  match s.modelRewriteIfNeeded r body d with
  | .error x => .error x
  | .ok (r, body) =>
    s.admitAndSchedule { r with priority := d.objectivePriority.getD 0, schedulingRequest := some body } body d

def handleResponseHeader (r : RequestContext P N) : RequestContext P N :=
  let response : FwkResponse N := { headers := r.responseHeaders, reqMetadata := r.metadata }
  { r with responseHeaders := (s.responseReceivedPlugins.foldl (fun x p => p.responseHeader x) response).headers }

/-- Before the end of the stream no plugin writes the response. -/
def directorResponseBody (r : RequestContext P N) (endOfStream : Bool) : RequestContext P N :=
  if s.responseStreamingPlugins.isEmpty then r
  else
    let response : FwkResponse N :=
      { headers := r.responseHeaders, startOfStream := !r.responseBodyStarted, endOfStream, usage := r.usage }
    let r := { r with responseBodyStarted := true }
    if endOfStream then
      let response := s.responseStreamingPlugins.foldl (fun x p => p.responseBody r.targetPod x) response
      { r with responseHeaders := response.headers, dynamicMetadata := response.dynamicMetadata }
    else r

end Server

/-! ## One pass of sending -/

/-- A condition, the messages sent under it, and the context once they are. -/
abbrev Stage (P N : Type) := RequestContext P N → Option (List ProcessingResponse × RequestContext P N)

/-- The six conditions of `updateStateAndSendIfNeeded` in their order. -/
def sendStages : List (Stage P N) :=
  [ fun r => if r.requestState = .requestReceived then
      r.reqHeaderResp.map fun m => ([m], { r with requestState := .headerRequestResponseComplete }) else none,
    fun r => if r.requestState = .headerRequestResponseComplete ∧ r.reqBodyResp ≠ [] then
      some (r.reqBodyResp, { r with requestState := .bodyRequestResponsesComplete, reqBodyResp := [] }) else none,
    fun r => if r.requestState = .bodyRequestResponsesComplete then
      r.reqTrailerResp.map fun m => ([m], r) else none,
    fun r => if r.requestState = .responseReceived then
      r.respHeaderResp.map fun m => ([m], { r with requestState := .headerResponseResponseComplete }) else none,
    fun r => if r.requestState = .headerResponseResponseComplete then
      some (r.respBodyResp, { r with
        requestState := if r.responseComplete then .bodyResponseResponsesComplete else r.requestState
        respBodyResp := [] }) else none,
    fun r => if r.requestState = .bodyResponseResponsesComplete then
      r.respTrailerResp.map fun m => ([m], r) else none ]

def runStages : List (Stage P N) → RequestContext P N → Stream → Bool × RequestContext P N × Stream
  | [], r, srv => (true, r, srv)
  | stage :: stages, r, srv =>
    match stage r with
    | none => runStages stages r srv
    | some (ms, r') =>
      match srv.sendAll ms with
      | (true, srv) => runStages stages r' srv
      | (false, srv) => (false, r, srv)

def evictedResponse : ProcessingResponse where
  response := .immediateResponse 429 (str "request evicted by flow control")

def updateStateAndSendIfNeeded (r : RequestContext P N) (srv : Stream) : Bool × RequestContext P N × Stream :=
  if r.requestState = .requestEvicted then
    let (ok, srv) := srv.send evictedResponse
    (ok, r, srv)
  else runStages sendStages r srv

/-! ## The main loop -/

/-- How `Process` returned. -/
inductive Return
  | done
  | sendFailed
  | receiveFailed
  | contextDone
  | unhandled
  deriving DecidableEq, Repr

inductive ReceiveError
  | eof
  | canceled
  | other
  deriving DecidableEq, Repr

structure Process (P N : Type) where
  reqCtx : RequestContext P N := {}
  body : Bytes := []
  /-- `evictCh` is not nil. -/
  evictCh : Bool := false
  srv : Stream := {}
  /-- The `endOfStream` arguments of the calls of `director.HandleResponseBody`. -/
  calls : List Bool := []
  returned : Option Return := none

inductive Event (N : Type)
  | recv (req : ProcessingRequest N) (d : Decisions)
  | recvError (e : ReceiveError)
  | evict
  | contextDone

namespace Server

variable (s : Server P N)

/-- One header of the request. -/
def readRequestHeader (r : RequestContext P N) (header : HeaderValue) : RequestContext P N :=
  let value := getHeaderValue header
  let r := { r with requestHeaders := put header.key value r.requestHeaders }
  if header.key = flowFairnessIDKey then { r with fairnessID := value }
  else if header.key = objectiveKeyHeader then { r with objectiveKey := value }
  else if header.key = modelNameRewriteKey then { r with targetModelName := value }
  else r

def handleRequestHeaders (r : RequestContext P N) (headers : List HeaderValue) (endOfStream : Bool) (d : Decisions) :
    Except (RequestContext P N × Error) (RequestContext P N) :=
  if endOfStream then
    match d.randomEndpoint with
    | none => .error (r, { code := .internal, msg := str "no pods available in datastore" })
    | some endpoint =>
      let r := { r with targetEndpoint := endpoint.address ++ str ":" ++ endpoint.port, requestSize := 0 }
      .ok { r with reqHeaderResp := some (generateRequestHeaderResponse r d.trace) }
  else
    let r := headers.foldl readRequestHeader r
    .ok (if r.fairnessID = [] then { r with fairnessID := defaultFairnessID } else r)

/-- `envoy.ExtractHeaderValue`. -/
def extractHeaderValue (headers : List HeaderValue) (headerKey : Bytes) : Bytes :=
  match headers.find? fun h => toLower h.key = toLower headerKey with
  | some h => getHeaderValue h
  | none => []

/-- `StreamingServer.HandleResponseBody`, up to the call of the director. -/
def recordUsage (r : RequestContext P N) (responseBytes : Bytes) (endOfStream : Bool) : RequestContext P N :=
  match s.parseResponse responseBytes r.responseHeaders endOfStream with
  | .ok (some usage) => { r with usage }
  | _ => r

/-- `StreamingServer.HandleResponseBody`. -/
def handleResponseBody (p : Process P N) (responseBytes : Bytes) (endOfStream : Bool) : Process P N :=
  { p with
    reqCtx := s.directorResponseBody (s.recordUsage p.reqCtx responseBytes endOfStream) endOfStream
    calls := p.calls ++ [endOfStream] }

def finishResponse (p : Process P N) (body : Bytes) (modelStreaming setEos : Bool) : Process P N :=
  if p.reqCtx.responseComplete then p
  else
    let p := s.handleResponseBody { p with reqCtx := { p.reqCtx with responseComplete := true } } body true
    if modelStreaming then p
    else
      let body := rewriteModelName body p.reqCtx.targetModelName p.reqCtx.incomingModelName
      { p with reqCtx := { p.reqCtx with
          respBodyResp := generateResponseBodyResponses body setEos p.reqCtx.dynamicMetadata } }

/-- The last chunk of the request's body. -/
def handleRequestBody (p : Process P N) (d : Decisions) : Process P N × Option Error :=
  let r := { p.reqCtx with rawBody := p.body, requestSize := p.body.length }
  let p := { p with body := [] }
  match s.parseRequest r.rawBody r.requestHeaders with
  | .error msg => ({ p with reqCtx := r }, some { code := .badRequest, msg })
  | .ok body =>
    match s.handleRequest r body d with
    | .error (r, e) => ({ p with reqCtx := r }, some e)
    | .ok r =>
      let r := { r with modelServerStreaming := (r.schedulingRequest.map InferenceRequestBody.stream).getD r.modelServerStreaming }
      let r := { r with reqHeaderResp := some (generateRequestHeaderResponse r d.trace) }
      let r := { r with reqBodyResp := generateRequestBodyResponses r.rawBody }
      ({ p with reqCtx := r, evictCh := if s.evictionLookup then d.evictChannel else p.evictCh }, none)

/-- The header says that the model server streams its response. -/
def announcesStream (header : HeaderValue) : Bool :=
  header.key = str "content-type" && str "text/event-stream" <:+: header.rawValue

def handleResponseHeaders (r : RequestContext P N) (headers : List HeaderValue) : RequestContext P N :=
  let r := { r with
    modelServerStreaming := r.modelServerStreaming || headers.any announcesStream
    requestState := .responseReceived
    responseHeaders := headers.foldl (fun m header => put header.key (getHeaderValue header) m) r.responseHeaders }
  let r := s.handleResponseHeader r
  { r with respHeaderResp := some (generateResponseHeaderResponse r) }

def streamChunk (p : Process P N) (chunk : Bytes) (endOfStream : Bool) : Process P N :=
  let r := { p.reqCtx with responseComplete := p.reqCtx.responseComplete || endOfStream }
  let p := s.handleResponseBody { p with reqCtx := r } chunk endOfStream
  let chunk := rewriteModelName chunk p.reqCtx.targetModelName p.reqCtx.incomingModelName
  { p with reqCtx := { p.reqCtx with
      respBodyResp := generateResponseBodyResponses chunk endOfStream p.reqCtx.dynamicMetadata } }

/-- Any other response is kept until its end. -/
def bufferChunk (p : Process P N) (chunk : Bytes) (endOfStream : Bool) : Process P N :=
  let p := { p with body := p.body ++ chunk }
  if endOfStream then s.finishResponse p p.body p.reqCtx.modelServerStreaming true else p

/-- The `switch` over the kinds of messages. -/
def handle (p : Process P N) (req : ProcessingRequest N) (d : Decisions) : Process P N × Option Error :=
  let p := { p with reqCtx := { p.reqCtx with metadata := req.metadataContext } }
  match req.request with
  | .requestHeaders headers endOfStream =>
    let r :=
      if extractHeaderValue headers requestIdHeaderKey = [] then
        { p.reqCtx with requestHeaders := put requestIdHeaderKey d.requestID p.reqCtx.requestHeaders }
      else p.reqCtx
    match handleRequestHeaders r headers endOfStream d with
    | .ok r => ({ p with reqCtx := r }, none)
    | .error (r, e) => ({ p with reqCtx := r }, some e)
  | .requestBody chunk endOfStream =>
    let p := { p with body := p.body ++ chunk }
    if endOfStream then s.handleRequestBody p d else (p, none)
  | .requestTrailers => (p, none)
  | .responseHeaders headers _ => ({ p with reqCtx := s.handleResponseHeaders p.reqCtx headers }, none)
  | .responseBody chunk endOfStream =>
    (if p.reqCtx.modelServerStreaming then s.streamChunk p chunk endOfStream else s.bufferChunk p chunk endOfStream,
      none)
  | .responseTrailers =>
    let p := s.finishResponse p p.body p.reqCtx.modelServerStreaming false
    ({ p with reqCtx := { p.reqCtx with respTrailerResp := some { response := .responseTrailers } } }, none)

/-- Returns, after the deferred clean-up. -/
def exit (p : Process P N) (how : Return) : Process P N :=
  let p := { p with returned := some how }
  if p.reqCtx.targetPod.isSome && !p.reqCtx.responseComplete then
    { p with reqCtx := s.directorResponseBody p.reqCtx true, calls := p.calls ++ [true] }
  else p

def exitAfterSend (p : Process P N) (sent : Bool × Stream) : Process P N :=
  s.exit { p with srv := sent.2 } (if sent.1 then .done else .sendFailed)

/-- The immediate response to an error, or a pass of sending. -/
def respond (p : Process P N) : Option Error → Process P N
  | some e =>
    match buildErrResponse e with
    | none => s.exit p .unhandled
    | some resp => s.exitAfterSend p (p.srv.send resp)
  | none =>
    let (ok, r, srv) := updateStateAndSendIfNeeded p.reqCtx p.srv
    let p := { p with reqCtx := r, srv }
    if ok then p else s.exit p .sendFailed

/-- One round of the main loop. -/
def step (p : Process P N) (ev : Event N) : Option (Process P N) :=
  if p.returned.isSome then none
  else
    match ev with
    | .recv req d =>
      let (p, err) := s.handle p req d
      some (s.respond p err)
    | .recvError e => some (s.exit p (if e = .other then .receiveFailed else .done))
    | .evict =>
      if !p.evictCh then none
      else if p.reqCtx.responseComplete then some { p with evictCh := false }
      else
        let r := { p.reqCtx with requestState := .requestEvicted }
        let (ok, r, srv) := updateStateAndSendIfNeeded r p.srv
        some (s.exit { p with reqCtx := r, srv } (if ok then .done else .sendFailed))
    | .contextDone => some (s.exit p .contextDone)

end Server

/-- A stream on which `Send` takes as many messages as `accepts` says. -/
def Process.init (accepts : Option Nat) : Process P N := { srv := { accepts } }

/-- A server with the pass-through parser, which takes any body as it is. -/
def passthrough (plugins : List ResponseBodyPlugin) : Server Empty N where
  model := Empty.elim
  setModel _ m := m
  marshal := Empty.elim
  parseRequest _ _ := .ok { payload := .rawPayload, stream := false }
  parseResponse _ _ _ := .ok none
  responseStreamingPlugins := plugins

/-- A pod, and the decisions that route a request to it. -/
def podA : EndpointMetadata := ⟨⟨str "default", str "pod-a", by decide⟩, str "10.0.0.1", str "8000"⟩

def routeToA : Decisions where
  candidates := [podA]
  schedule := .ok (some ⟨[podA], by decide⟩)

def eventStream : HeaderValue := { key := str "content-type", rawValue := str "text/event-stream" }

end InferenceScheduler.Handlers
