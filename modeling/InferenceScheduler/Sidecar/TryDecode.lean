/-
`tryDecode` step by step: the first decode attempt of the shared storage
connector, the writer it goes through (`responseWriterWithBuffer`), the
inspection of that writer's buffer, and the requests after it.

A streamed attempt is served on a goroutine of its own, whose calls on the
writer read the mode first without the lock; the inspection holds it over the
whole switch to the direct mode. The map that `Header()` returns is the client's
own, and is changed without the lock.
-/
import InferenceScheduler.Sidecar.Connectors

namespace InferenceScheduler.Sidecar

/-! ## What is looked for in the buffer -/

/-- `bytes.Count` of the delimiter of events, two line feeds. -/
def countEvents : Text → Nat
  | '\n' :: '\n' :: data => countEvents data + 1
  | _ :: data => countEvents data
  | [] => 0

def shouldSignalBytes (data : Text) : Bool := 2 ≤ countEvents data

def dataPrefix : Text := "data: ".toList

section

variable {N : Type} (e : Env N)

/-- One line of `checkBufferedResponseForCacheThreshold`. -/
def Env.hasCacheThresholdLine (line : Text) : Bool :=
  let line := trimSpace line
  if line = "data: [DONE]".toList ∨ ¬ dataPrefix <+: line then false
  else
    match e.unmarshalMap (line.drop dataPrefix.length) with
    | some response => hasCacheThresholdFinishReason (response.getD [])
    | none => false

def Env.checkBufferedResponseForCacheThreshold (data : Text) : Bool :=
  (data.splitOn '\n').any e.hasCacheThresholdLine

end

/-! ## The state -/

/-- `responseWriterWithBuffer`. `mu`: `flushBufferAndGoDirect` holds the lock;
the other holders do all they do in one step. -/
structure ResponseWriterWithBuffer where
  buffering : Bool := true
  mu : Bool := false
  buffer : Text := []
  statusCode : Nat := 0
  wroteHeader : Bool := false
  ready : Bool := false

/-- Between two calls, in one that has seen the buffering mode, or in a `Flush` about
to signal. -/
inductive ServePc
  | idle
  | slow
  | signal
  deriving DecidableEq, Repr

/-- The last steps are those of `flushBufferAndGoDirect`, after an error status or not. -/
inductive InspectPc
  | select
  | status
  | check
  | lock (err : Bool)
  | header (err : Bool)
  | body (err : Bool)
  | flush (err : Bool)
  | store (err : Bool)
  | wait
  deriving DecidableEq, Repr

/-- In `tryDecodeBuffered`, in `tryDecodeStreaming`, or behind `tryDecode`, with its verdict. -/
inductive Handler
  | buffered (dw : BufferedResponseWriter)
  | streaming (pc : InspectPc)
  | running (verdict : Verdict) (p : Program)
  | writing (verdict : Verdict) (calls : List WriterCall) (p : Program)

/-- `calls` are still to be made by the first response; `log` are those of the handler
behind `tryDecode`, with their replies. -/
structure Attempt where
  client : Client := {}
  writer : ResponseWriterWithBuffer := {}
  calls : List WriterCall
  serve : ServePc := .idle
  done : Bool := false
  handler : Handler
  log : List ((c : Call) × c.Reply) := []

namespace Attempt

inductive Act
  /-- The next step of the first response. -/
  | serve
  /-- The next step of `tryDecode`. -/
  | inspect
  /-- The client's writer returns an error in `flushBufferAndGoDirect`. -/
  | clientFails
  /-- The handler's next call behind `tryDecode` returns. -/
  | reply (r : (c : Call) → c.Reply)
  /-- The next call on the client's writer behind `tryDecode`. -/
  | write

/-- The first response's next step. -/
def serveStep (s : Attempt) : Option Attempt :=
  match s.handler, s.serve, s.calls with
  | .buffered dw, _, c :: calls => some { s with calls, handler := .buffered (dw.call c) }
  | .buffered _, _, [] => if s.done then none else some { s with done := true }
  | _, .idle, [] => if s.done then none else some { s with done := true }
  | _, .idle, c :: calls =>
    if c.isHeader ∨ !s.writer.buffering then some { s with client := s.client.call c, calls }
    else some { s with serve := .slow }
  | _, .slow, c :: calls =>
    if s.writer.mu then none
    else
      match c with
      | .write b =>
        if s.writer.buffering then
          let buffer := s.writer.buffer ++ b
          some { s with
            writer := { s.writer with
              buffer
              statusCode := if s.writer.statusCode = 0 then 200 else s.writer.statusCode
              ready := s.writer.ready || shouldSignalBytes buffer }
            serve := .idle
            calls }
        else some { s with client := s.client.call c, serve := .idle, calls }
      | .writeHeader code =>
        if s.writer.buffering then
          let statusCode := if s.writer.statusCode = 0 then code else s.writer.statusCode
          some { s with writer := { s.writer with statusCode }, serve := .idle, calls }
        else some { s with client := s.client.call c, serve := .idle, calls }
      -- `Flush` does not look at the mode again
      | .flush =>
        if shouldSignalBytes s.writer.buffer then some { s with serve := .signal }
        else some { s with serve := .idle, calls }
      | _ => none
  | _, .signal, .flush :: calls => some { s with writer := { s.writer with ready := true }, serve := .idle, calls }
  | _, _, _ => none

section

variable {N : Type} (e : Env N) (next : Program)

/-- The end of `flushBufferAndGoDirect`: an error status is returned at once. -/
def afterFlush (s : Attempt) (err : Bool) : Attempt :=
  { s with handler := if err then .running .failed .done else .streaming .wait }

/-- The next step of `tryDecode`; `next` is what follows when prefill is
needed. -/
def inspectStep (s : Attempt) : Option Attempt :=
  match s.handler with
  | .buffered dw =>
    if s.calls = [] then
      match e.inspectBuffered dw with
      | (.prefill, _) => some { s with handler := .running .prefill next }
      | (verdict, calls) => some { s with handler := .writing verdict calls .done }
    else none
  | .streaming .select => if s.writer.ready || s.done then some { s with handler := .streaming .status } else none
  | .streaming .status =>
    some { s with handler := .streaming (if isHTTPError s.writer.statusCode then .lock true else .check) }
  | .streaming .check =>
    some { s with
      handler :=
        if e.checkBufferedResponseForCacheThreshold s.writer.buffer then .running .prefill next
        else .streaming (.lock false) }
  | .streaming (.lock err) =>
    if s.writer.buffering then
      some { s with writer := { s.writer with mu := true }, handler := .streaming (.header err) }
    else some (s.afterFlush err)
  | .streaming (.header err) =>
    let client := if s.writer.wroteHeader || s.writer.statusCode = 0 then s.client
      else s.client.call (.writeHeader s.writer.statusCode)
    some { s with client, writer := { s.writer with wroteHeader := true }, handler := .streaming (.body err) }
  | .streaming (.body err) =>
    let client := if s.writer.buffer = [] then s.client else s.client.call (.write s.writer.buffer)
    some { s with client, handler := .streaming (.flush err) }
  | .streaming (.flush err) => some { s with client := s.client.call .flush, handler := .streaming (.store err) }
  | .streaming (.store err) =>
    some ({ s with writer := { s.writer with buffering := false, mu := false } }.afterFlush err)
  | .streaming .wait => if s.done then some { s with handler := .running .succeeded .done } else none
  | _ => none

/-- A call of the handler behind `tryDecode` returns `r`. -/
def replyStep (s : Attempt) (r : (c : Call) → c.Reply) : Option Attempt :=
  match s.handler with
  | .running verdict (.call (.answer calls) p) =>
    some { s with handler := .writing verdict calls (p ()), log := s.log ++ [⟨.answer calls, ()⟩] }
  | .running verdict (.call (.proxy upstream req .client) p) =>
    let response := r (.proxy upstream req .client)
    some { s with handler := .writing verdict response (p response), log := s.log ++ [⟨.proxy upstream req .client, response⟩] }
  | .running verdict (.call (.proxy upstream req .buffered) p) =>
    let response := r (.proxy upstream req .buffered)
    some { s with handler := .running verdict (p response), log := s.log ++ [⟨.proxy upstream req .buffered, response⟩] }
  | _ => none

def step (s : Attempt) : Act → Option Attempt
  | .serve => serveStep s
  | .inspect => inspectStep e next s
  | .clientFails =>
    match s.handler with
    | .streaming (.body _) =>
      if s.writer.buffer = [] then none
      else some { s with writer := { s.writer with mu := false }, handler := .running .failed .done }
    | _ => none
  | .reply r => replyStep s r
  | .write =>
    match s.handler with
    | .writing verdict (c :: calls) p => some { s with client := s.client.call c, handler := .writing verdict calls p }
    | .writing verdict [] p => some { s with handler := .running verdict p }
    | _ => none

end

/-- `tryDecode` begins; `calls` are those of the decoder's response. -/
def start (streams : Bool) (calls : List WriterCall) : Attempt :=
  { calls, handler := if streams then .streaming .select else .buffered {} }

/-- Only `next` is run. -/
def without (next : Program) : Attempt := { calls := [], handler := .running .prefill next }

/-- `tryDecode` has returned. -/
def verdict (s : Attempt) : Option Verdict :=
  match s.handler with
  | .running verdict _ | .writing verdict _ _ => some verdict
  | _ => none

/-! ## What a step can do -/

/-- The steps of a streamed first response. -/
inductive Serves (s : Attempt) : Attempt → Prop
  | finish (hcalls : s.calls = []) : Serves s { s with done := true }
  /-- A call on the client's own writer. -/
  | direct {c calls} (hcalls : s.calls = c :: calls) (h : c.isHeader = true ∨ s.writer.buffering = false) :
    Serves s { s with client := s.client.call c, serve := .idle, calls }
  | enter (h : s.writer.buffering = true) : Serves s { s with serve := .slow }
  | write {b calls} (hcalls : s.calls = .write b :: calls) (hb : s.writer.buffering = true) (hmu : s.writer.mu = false) :
    Serves s { s with
      writer := { s.writer with
        buffer := s.writer.buffer ++ b
        statusCode := if s.writer.statusCode = 0 then 200 else s.writer.statusCode
        ready := s.writer.ready || shouldSignalBytes (s.writer.buffer ++ b) }
      serve := .idle
      calls }
  | writeHeader {code calls} (hcalls : s.calls = .writeHeader code :: calls) (hb : s.writer.buffering = true)
      (hmu : s.writer.mu = false) :
    Serves s { s with
      writer := { s.writer with statusCode := if s.writer.statusCode = 0 then code else s.writer.statusCode }
      serve := .idle
      calls }
  | flush {calls} (hcalls : s.calls = .flush :: calls) : Serves s { s with serve := .idle, calls }
  | signals (h : shouldSignalBytes s.writer.buffer = true) : Serves s { s with serve := .signal }
  | signal {calls} (hcalls : s.calls = .flush :: calls) (h : s.serve = .signal) :
    Serves s { s with writer := { s.writer with ready := true }, serve := .idle, calls }

variable {s s' : Attempt}

theorem serves_of_serveStep (hh : ∀ dw, s.handler ≠ .buffered dw) (h : serveStep s = some s') : Serves s s' := by
  unfold serveStep at h
  split at h
  · next hdw _ => exact absurd hdw (hh _)
  · next hdw _ => exact absurd hdw (hh _)
  · next hcalls _ =>
    split at h
    · cases h
    · cases h
      exact .finish hcalls
  · next c calls hserve hcalls _ =>
    split at h
    · next hd =>
      cases h
      have hd' : c.isHeader = true ∨ s.writer.buffering = false := by simpa using hd
      simpa only [← hserve] using Serves.direct hcalls hd'
    · next hd =>
      cases h
      exact .enter (by simpa using (not_or.mp hd).2)
  · next c calls _ hcalls _ =>
    split at h
    · cases h
    next hmu =>
    have hmu : s.writer.mu = false := by simpa using hmu
    split at h
    · split at h
      · next hb => cases h; exact .write hcalls hb hmu
      · next hb => cases h; exact .direct hcalls (.inr (by simpa using hb))
    · split at h
      · next hb => cases h; exact .writeHeader hcalls hb hmu
      · next hb => cases h; exact .direct hcalls (.inr (by simpa using hb))
    · split at h
      · next hsig => cases h; exact .signals hsig
      · cases h; exact .flush hcalls
    · cases h
  · next hserve hcalls _ => cases h; exact .signal hcalls hserve
  · cases h

theorem Serves.handler (h : Serves s s') : s'.handler = s.handler := by
  cases h <;> rfl

theorem verdict_step {N : Type} {e : Env N} {next : Program} {a : Act} {v : Verdict}
    (h : step e next s a = some s') (hv : s.verdict = some v) : s'.verdict = some v := by
  unfold verdict at hv
  split at hv
  · next p hh =>
    cases a with
    | serve =>
      have := (serves_of_serveStep (by simp [hh]) h).handler
      simpa only [verdict, this, hh] using hv
    | inspect => simp [step, inspectStep, hh] at h
    | clientFails | write => simp [step, hh] at h
    | reply r =>
      simp only [step, replyStep, hh] at h
      split at h
      all_goals first | (cases h; simp_all [verdict]) | cases h
  · next calls p hh =>
    cases a with
    | serve =>
      have := (serves_of_serveStep (by simp [hh]) h).handler
      simpa only [verdict, this, hh] using hv
    | inspect => simp [step, inspectStep, hh] at h
    | clientFails => simp [step, hh] at h
    | reply r => simp [step, replyStep, hh] at h
    | write =>
      cases calls with
      | nil | cons c calls =>
        simp only [step, hh] at h
        cases h
        exact hv
  · cases hv

end Attempt

end InferenceScheduler.Sidecar
