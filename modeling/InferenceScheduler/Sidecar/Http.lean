/-
Responses in the sidecar: what a handler can call on an `http.ResponseWriter`,
and the writers behind that interface, the client's connection and the sidecar's
own `bufferedResponseWriter` (`sidecar/proxy/status_response_writer.go`,
`errors.go`). The names of header fields are written in lower case.
-/
import InferenceScheduler.Lib.Json

namespace InferenceScheduler.Sidecar

/-- `http.Header`, in the order of the names. -/
abbrev Header := List (Text × List Text)

namespace Header

def values (h : Header) (key : Text) : List Text := (SortedMap.get? h key).getD []

def get (h : Header) (key : Text) : Text := (h.values key).headD []

def add (h : Header) (key value : Text) : Header := SortedMap.put key (h.values key ++ [value]) h

end Header

/-! ## Response writers -/

/-- `addHeader`, `setHeader` and `clearHeader` change the map that `Header()` returns. -/
inductive WriterCall
  | addHeader (key value : Text)
  | setHeader (key : Text) (values : List Text)
  | clearHeader
  | writeHeader (statusCode : Nat)
  | write (b : Text)
  | flush
  deriving DecidableEq, Repr

/-- What a call leaves of the header map. -/
def WriterCall.onHeader (h : Header) : WriterCall → Header
  | .addHeader key value => h.add key value
  | .setHeader key values => SortedMap.put key values h
  | .clearHeader => []
  | _ => h

/-- The call is one on the header map. -/
def WriterCall.isHeader : WriterCall → Bool
  | .addHeader .. | .setHeader .. | .clearHeader => true
  | _ => false

structure BufferedResponseWriter where
  headers : Header := []
  buffer : Text := []
  statusCode : Nat := 0

/-- The last status counts, also when it is written behind the body. -/
def BufferedResponseWriter.call (w : BufferedResponseWriter) : WriterCall → BufferedResponseWriter
  | .writeHeader statusCode => { w with statusCode }
  | .write b => { w with buffer := w.buffer ++ b, statusCode := if w.statusCode = 0 then 200 else w.statusCode }
  | c => { w with headers := c.onHeader w.headers }

/-- The writer after the calls of one response. -/
def record (calls : List WriterCall) : BufferedResponseWriter := calls.foldl .call {}

/-- What goes over the client's connection. -/
inductive Sent
  | informational (statusCode : Nat) (header : Header)
  | status (statusCode : Nat) (header : Header)
  | body (b : Text)
  deriving DecidableEq, Repr

def Sent.isStatus : Sent → Bool
  | .status .. => true
  | _ => false

/-- The response writer `net/http` gives a handler. -/
structure Client where
  header : Header := []
  sent : List Sent := []
  deriving DecidableEq

namespace Client

/-- The status line and the header are on their way. -/
def wroteHeader (w : Client) : Bool := w.sent.any Sent.isStatus

/-- A 1xx status is sent at once and does not count; a second one is superfluous. -/
def writeHeader (w : Client) (statusCode : Nat) : Client :=
  if w.wroteHeader then w
  else if 100 ≤ statusCode ∧ statusCode < 200 ∧ statusCode ≠ 101 then
    { w with sent := w.sent ++ [.informational statusCode w.header] }
  else { w with sent := w.sent ++ [.status statusCode w.header] }

def call (w : Client) : WriterCall → Client
  | .writeHeader statusCode => w.writeHeader statusCode
  | .write b => let w := w.writeHeader 200; { w with sent := w.sent ++ [.body b] }
  | .flush => w.writeHeader 200
  | c => { w with header := c.onHeader w.header }

end Client

/-! ## Status codes and errors -/

def isHTTPError (statusCode : Nat) : Bool := statusCode < 200 || 300 ≤ statusCode

def shouldFallbackToDecode (pw : BufferedResponseWriter) : Bool := !(400 ≤ pw.statusCode && pw.statusCode ≤ 451)

/-- The JSON of an `errorResponse`. -/
def errorResponse (message errorType : Text) (code : Nat) : Text :=
  "\x7b\"object\":\"error\",\"message\":".toList ++ Json.quote message ++ ",\"type\":".toList ++
    Json.quote errorType ++ ",\"param\":\"\",\"code\":".toList ++ Nat.toDigits 10 code ++ "\x7d".toList

def sendError (message errorType : Text) (code : Nat) : List WriterCall :=
  [.writeHeader code, .write (errorResponse message errorType code)]

def errorJSONInvalid (message : Text) : List WriterCall := sendError message "BadRequestError".toList 400

def errorBadGateway (message : Text) : List WriterCall := sendError message "BadGateway".toList 502

def errorInternalServerError (message : Text) : List WriterCall := sendError message "InternalServerError".toList 500

/-- `http.Error`. -/
def httpError (message : Text) (code : Nat) : List WriterCall :=
  [.setHeader "content-type".toList ["text/plain; charset=utf-8".toList],
    .setHeader "x-content-type-options".toList ["nosniff".toList], .writeHeader code, .write (message ++ ['\n'])]

end InferenceScheduler.Sidecar
