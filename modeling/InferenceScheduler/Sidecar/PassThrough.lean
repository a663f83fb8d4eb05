/-
What the client has been sent when `tryDecodeStreaming` returns without asking
for prefill. The part of the response that is already made is kept as its status
`n` (0 when there is none yet) and its body `b`: as long as the writer buffers,
both stand in the writer, and afterwards both have been sent (`Shown`).

An error status is returned before the response is complete, and an
informational status takes the place of the final one in the buffering mode.
-/
import InferenceScheduler.Sidecar.TryDecode
import InferenceScheduler.Sidecar.Containment

namespace InferenceScheduler.Sidecar

/-! ## The response of a decoder -/

/-- The final status after a call; 0 when there is none. -/
def statusAfter (n : Nat) : WriterCall → Nat
  | .writeHeader code => if n = 0 ∧ 200 ≤ code then code else n
  | .write _ => if n = 0 then 200 else n
  | _ => n

/-- A response without a status has status 200. -/
def orOK (n : Nat) : Nat := if n = 0 then 200 else n

/-- The status of a response, `n` being that of the calls before. -/
def statusFrom (n : Nat) (calls : List WriterCall) : Nat := orOK (calls.foldl statusAfter n)

def bodyOf (calls : List WriterCall) : Text :=
  calls.flatMap fun
    | .write b => b
    | _ => []

def Sent.bytes : Sent → Text
  | .body b => b
  | _ => []

/-- The client has been sent the response's status, then its body. -/
def passed (calls : List WriterCall) (client : Client) : Bool :=
  match client.sent with
  | .status code _ :: sent =>
    code = statusFrom 0 calls && sent.all (fun x => x = .body x.bytes) && sent.flatMap Sent.bytes = bodyOf calls
  | _ => false

namespace Attempt

/-- No informational status while buffering, no error status of an incomplete
response, and no error of the client's writer. -/
def passesOn (s : Attempt) : Act → Bool
  | .serve =>
    match s.calls with
    | .writeHeader code :: _ => !(s.writer.buffering && s.writer.statusCode = 0) || 200 ≤ code
    | _ => true
  | .inspect =>
    match s.handler with
    | .streaming .status => !isHTTPError s.writer.statusCode || s.done
    | _ => true
  | .clientFails => false
  | _ => true

/-! ## The invariant -/

/-- Status and body have been sent. -/
def Shown (n : Nat) (b : Text) (sent : List Sent) : Prop :=
  ∃ (header : Header) (bodies : List Text), sent = .status (orOK n) header :: bodies.map .body ∧ bodies.flatten = b

/-- What the response has made of its goroutine's state. -/
structure Served (n : Nat) (b : Text) (s : Attempt) : Prop where
  finished : s.done = true → s.calls = []
  ready : s.writer.ready = true → n ≠ 0
  signal : s.serve = .signal → n ≠ 0
  buffer : s.writer.buffer ≠ [] → n ≠ 0
  body : n = 0 → b = []
  final : n = 0 ∨ 200 ≤ n

/-- The writer holds the response back. -/
structure Held (n : Nat) (b : Text) (s : Attempt) : Prop where
  buffering : s.writer.buffering = true
  buffer : s.writer.buffer = b
  statusCode : s.writer.statusCode = n

structure Holding (n : Nat) (b : Text) (s : Attempt) : Prop extends Held n b s where
  sent : s.client.sent = []
  wroteHeader : s.writer.wroteHeader = false

/-- The lock is held and `P` has been sent. -/
structure Switching (P : List Sent → Prop) (n : Nat) (b : Text) (s : Attempt) : Prop extends Held n b s where
  mu : s.writer.mu = true
  sent : P s.client.sent

structure Direct (n : Nat) (b : Text) (s : Attempt) : Prop where
  buffering : s.writer.buffering = false
  sent : Shown n b s.client.sent

/-- What has woken the inspection. -/
def Awake (n : Nat) (s : Attempt) : Prop := n ≠ 0 ∨ s.done = true

/-- Where the inspection is, and what it has seen. -/
def Phase (n : Nat) (b : Text) (s : Attempt) : Prop :=
  match s.handler with
  | .streaming .select => Holding n b s
  | .streaming .status | .streaming .check => Holding n b s ∧ Awake n s
  | .streaming (.lock err) => Holding n b s ∧ Awake n s ∧ (err = true → s.done = true)
  | .streaming (.header err) =>
    Switching (· = []) n b s ∧ s.writer.wroteHeader = false ∧ Awake n s ∧ (err = true → s.done = true)
  | .streaming (.body err) =>
    Switching (fun sent => n = 0 ∧ sent = [] ∨ n ≠ 0 ∧ Shown n [] sent) n b s ∧ Awake n s ∧ (err = true → s.done = true)
  | .streaming (.flush err) =>
    Switching (fun sent => n = 0 ∧ sent = [] ∨ Shown n b sent) n b s ∧ Awake n s ∧ (err = true → s.done = true)
  | .streaming (.store err) => Switching (Shown n b) n b s ∧ Awake n s ∧ (err = true → s.done = true)
  | .streaming .wait => Direct n b s ∧ Awake n s
  | .running .failed .done | .running .succeeded .done => Direct n b s ∧ Awake n s ∧ s.done = true
  | _ => False

/-- The response so far and the calls to come make up the whole response. -/
structure Passing (calls : List WriterCall) (s : Attempt) (n : Nat) (b : Text) : Prop where
  status : statusFrom n s.calls = statusFrom 0 calls
  body : b ++ bodyOf s.calls = bodyOf calls
  served : Served n b s
  phase : Phase n b s

/-! ## The calls of the response -/

/-- What a step of the response leaves as it was. -/
structure Frame (n : Nat) (b : Text) (s : Attempt) (n' : Nat) (b' : Text) (s' : Attempt) : Prop where
  status : statusFrom n' s'.calls = statusFrom n s.calls
  body : b' ++ bodyOf s'.calls = b ++ bodyOf s.calls
  started : n ≠ 0 → n' ≠ 0
  done : s.done = true → s'.done = true
  handler : s'.handler = s.handler

theorem Frame.awake {n b s n' b' s'} (f : Frame n b s n' b' s') (h : Awake n s) : Awake n' s' :=
  h.imp f.started f.done

@[simp] theorem statusFrom_cons (n : Nat) (c : WriterCall) (calls : List WriterCall) :
    statusFrom n (c :: calls) = statusFrom (statusAfter n c) calls := rfl

@[simp] theorem bodyOf_cons (c : WriterCall) (calls : List WriterCall) :
    bodyOf (c :: calls) = bodyOf [c] ++ bodyOf calls := by
  simp [bodyOf]

variable {c : WriterCall}

theorem statusAfter_isHeader {n : Nat} (h : c.isHeader = true) : statusAfter n c = n := by
  cases c <;> simp_all [WriterCall.isHeader, statusAfter]

theorem bodyOf_isHeader (h : c.isHeader = true) : bodyOf [c] = [] := by
  cases c <;> simp_all [WriterCall.isHeader, bodyOf]

theorem statusAfter_of_ne {n : Nat} (h : n ≠ 0) (c : WriterCall) : statusAfter n c = n := by
  cases c <;> simp [statusAfter, h]

variable {client : Client}

theorem sent_call_isHeader (h : c.isHeader = true) : (client.call c).sent = client.sent := by
  cases c <;> simp_all [WriterCall.isHeader, Client.call]

theorem shouldSignalBytes_ne_nil {data : Text} (h : shouldSignalBytes data = true) : data ≠ [] := by
  rintro rfl
  simp [shouldSignalBytes, countEvents] at h

theorem Shown.call {n : Nat} {b : Text} (h : Shown n b client.sent) (c : WriterCall) :
    Shown n (b ++ bodyOf [c]) (client.call c).sent := by
  obtain ⟨header, bodies, hsent, rfl⟩ := h
  have hwrote : client.wroteHeader = true := by simp [Client.wroteHeader, hsent, Sent.isStatus]
  cases c with
  | write b => exact ⟨header, bodies ++ [b], by simp [Client.call, Client.writeHeader, hwrote, hsent], by simp [bodyOf]⟩
  | _ => exact ⟨header, bodies, by simp [Client.call, Client.writeHeader, hwrote, hsent], by simp [bodyOf]⟩

variable {n : Nat} {b : Text} {s s' : Attempt}

theorem Frame.same (hn : statusFrom n s'.calls = statusFrom n s.calls) (hb : bodyOf s'.calls = bodyOf s.calls)
    (hd : s.done = true → s'.done = true) (hh : s'.handler = s.handler) : Frame n b s n b s' :=
  ⟨hn, by rw [hb], id, hd, hh⟩

/-- A step of the response that neither the client nor the buffer sees. -/
structure Quiet (n : Nat) (b : Text) (s s' : Attempt) : Prop where
  frame : Frame n b s n b s'
  served : Served n b s'
  sent : s'.client.sent = s.client.sent
  writer : s'.writer = { s.writer with ready := s'.writer.ready }

variable {calls : List WriterCall}

theorem Quiet.tail (hcalls : s.calls = c :: calls) (hs' : s'.calls = calls)
    (hn : statusAfter n c = n) (hb : bodyOf [c] = []) (hv : Served n b s) (hserve : s'.serve = .idle)
    (hdone : s'.done = s.done) (hh : s'.handler = s.handler) (hsent : s'.client.sent = s.client.sent)
    (hready : s'.writer.ready = true → n ≠ 0) (hw : s'.writer = { s.writer with ready := s'.writer.ready }) :
    Quiet n b s s' := by
  refine ⟨.same ?_ ?_ (hdone ▸ id) hh, ⟨?_, hready, by simp [hserve], ?_, hv.body, hv.final⟩, hsent, hw⟩
  · rw [hcalls, hs', statusFrom_cons, hn]
  · rw [hcalls, hs', bodyOf_cons c, hb, List.nil_append]
  · intro h
    have := hv.finished (hdone ▸ h)
    simp [hcalls] at this
  · rw [hw]
    exact hv.buffer

theorem Serves.cases_quiet (hv : Served n b s) (h : Serves s s') :
    Quiet n b s s' ∨
    (s.writer.buffering = false ∧ ∃ c calls, s.calls = c :: calls ∧
      s' = { s with client := s.client.call c, serve := .idle, calls }) ∨
    (s.writer.buffering = true ∧ s.writer.mu = false ∧
      ((∃ b₀ calls, s.calls = .write b₀ :: calls ∧ s' = { s with
          writer := { s.writer with
            buffer := s.writer.buffer ++ b₀
            statusCode := if s.writer.statusCode = 0 then 200 else s.writer.statusCode
            ready := s.writer.ready || shouldSignalBytes (s.writer.buffer ++ b₀) }
          serve := .idle
          calls }) ∨
        ∃ code calls, s.calls = .writeHeader code :: calls ∧ s' = { s with
          writer := { s.writer with statusCode := if s.writer.statusCode = 0 then code else s.writer.statusCode }
          serve := .idle
          calls })) := by
  cases h with
  | finish hcalls => exact .inl ⟨.same rfl rfl (fun _ => rfl) rfl, { hv with finished := fun _ => hcalls }, rfl, rfl⟩
  | direct hcalls hd =>
    rcases hd with hc | hb
    · exact .inl (.tail hcalls rfl (statusAfter_isHeader hc) (bodyOf_isHeader hc) hv rfl rfl rfl
        (sent_call_isHeader hc) hv.ready rfl)
    · exact .inr (.inl ⟨hb, _, _, hcalls, rfl⟩)
  | enter => exact .inl ⟨.same rfl rfl id rfl, { hv with signal := nofun }, rfl, rfl⟩
  | write hcalls hb hmu => exact .inr (.inr ⟨hb, hmu, .inl ⟨_, _, hcalls, rfl⟩⟩)
  | writeHeader hcalls hb hmu => exact .inr (.inr ⟨hb, hmu, .inr ⟨_, _, hcalls, rfl⟩⟩)
  | flush hcalls => exact .inl (.tail hcalls rfl rfl rfl hv rfl rfl rfl rfl hv.ready rfl)
  | signals hsig =>
    exact .inl ⟨.same rfl rfl id rfl, { hv with signal := fun _ => hv.buffer (shouldSignalBytes_ne_nil hsig) }, rfl, rfl⟩
  | signal hcalls hsig => exact .inl (.tail hcalls rfl rfl rfl hv rfl rfl rfl rfl (fun _ => hv.signal hsig) rfl)

theorem Held.quiet (hs : Held n b s) (hq : Quiet n b s s') : Held n b s' := by
  rcases hs with ⟨h₁, h₂, h₃⟩
  constructor <;> rw [hq.writer] <;> assumption

theorem Switching.serves {P : List Sent → Prop} (hs : Switching P n b s) (hv : Served n b s) (h : Serves s s') :
    Quiet n b s s' ∧ Switching P n b s' := by
  rcases h.cases_quiet hv with hq | ⟨hb, -⟩ | ⟨-, hmu, -⟩
  · refine ⟨hq, { hs.toHeld.quiet hq with mu := ?_, sent := ?_ }⟩
    · rw [hq.writer]
      exact hs.mu
    · rw [hq.sent]
      exact hs.sent
  · simp [hs.buffering] at hb
  · simp [hs.mu] at hmu

theorem Holding.serves (hs : Holding n b s) (hv : Served n b s) (hok : passesOn s .serve = true) (h : Serves s s') :
    ∃ n' b', Frame n b s n' b' s' ∧ Served n' b' s' ∧ Holding n' b' s' := by
  have hfin := hv.finished
  rcases h.cases_quiet hv with hq | ⟨hb, -⟩ | ⟨-, -, ⟨b₀, calls, hcalls, rfl⟩ | ⟨code, calls, hcalls, rfl⟩⟩
  · refine ⟨n, b, hq.frame, hq.served, { hs.toHeld.quiet hq with sent := hq.sent.trans hs.sent, wroteHeader := ?_ }⟩
    rw [hq.writer]
    exact hs.wroteHeader
  · simp [hs.buffering] at hb
  · have hne : statusAfter n (.write b₀) ≠ 0 := by
      simp only [statusAfter]
      split <;> simp_all
    refine ⟨statusAfter n (.write b₀), b ++ b₀, ⟨by simp [hcalls], by simp [hcalls, bodyOf], fun _ => hne, id, rfl⟩,
      ⟨fun hdone => by simp [hfin hdone] at hcalls, fun _ => hne, nofun, fun _ => hne, fun h => absurd h hne, .inr ?_⟩,
      { hs with buffer := by simp [hs.buffer], statusCode := by simp [hs.statusCode, statusAfter] }⟩
    have := hv.final
    simp only [statusAfter]
    split <;> omega
  · have hcode : n = 0 → 200 ≤ code := by
      intro hn
      simpa [passesOn, hcalls, hs.buffering, hs.statusCode, hn] using hok
    have heq : statusAfter n (.writeHeader code) = if n = 0 then code else n := by
      simp only [statusAfter]
      split <;> split <;> simp_all
    have hne : n ≠ 0 → statusAfter n (.writeHeader code) ≠ 0 := fun h => by rwa [statusAfter_of_ne h]
    refine ⟨statusAfter n (.writeHeader code), b, ⟨by simp [hcalls], by simp [hcalls, bodyOf], hne, id, rfl⟩,
      ⟨fun hdone => by simp [hfin hdone] at hcalls, fun h => hne (hv.ready h), nofun, fun h => hne (hv.buffer h),
        fun h => hv.body (by_contra fun hn => hne hn h), ?_⟩,
      { hs with statusCode := by simp [hs.statusCode, heq] }⟩
    have := hv.final
    rw [heq]
    split <;> omega

theorem Direct.serves (hs : Direct n b s) (hv : Served n b s) (ha : Awake n s) (h : Serves s s') :
    ∃ b', Frame n b s n b' s' ∧ Served n b' s' ∧ Direct n b' s' := by
  rcases h.cases_quiet hv with hq | ⟨-, c, calls, hcalls, rfl⟩ | ⟨hb, -⟩
  · refine ⟨b, hq.frame, hq.served, ?_, hq.sent ▸ hs.sent⟩
    rw [hq.writer]
    exact hs.buffering
  · have hfin : s.done ≠ true := fun hdone => by simp [hv.finished hdone] at hcalls
    have hn : n ≠ 0 := ha.resolve_right hfin
    refine ⟨b ++ bodyOf [c], ⟨by simp [hcalls, statusAfter_of_ne hn], ?_, id, id, rfl⟩,
      { hv with finished := fun hdone => absurd hdone hfin, signal := nofun, body := fun h => absurd h hn },
      { hs with sent := hs.sent.call c }⟩
    rw [hcalls, List.append_assoc, ← bodyOf_cons]
  · simp [hs.buffering] at hb

theorem Phase.serves (hp : Phase n b s) (hv : Served n b s) (hok : passesOn s .serve = true) (h : Serves s s') :
    ∃ n' b', Frame n b s n' b' s' ∧ Served n' b' s' ∧ Phase n' b' s' := by
  unfold Phase at hp
  split at hp
  · next hh =>
    obtain ⟨n', b', f, hv', hs'⟩ := hp.serves hv hok h
    exact ⟨n', b', f, hv', by simpa only [Phase, f.handler, hh] using hs'⟩
  · next hh =>
    obtain ⟨n', b', f, hv', hs'⟩ := hp.1.serves hv hok h
    exact ⟨n', b', f, hv', by simpa only [Phase, f.handler, hh] using ⟨hs', f.awake hp.2⟩⟩
  · next hh =>
    obtain ⟨n', b', f, hv', hs'⟩ := hp.1.serves hv hok h
    exact ⟨n', b', f, hv', by simpa only [Phase, f.handler, hh] using ⟨hs', f.awake hp.2⟩⟩
  · next hh =>
    obtain ⟨n', b', f, hv', hs'⟩ := hp.1.serves hv hok h
    exact ⟨n', b', f, hv', by
      simpa only [Phase, f.handler, hh] using ⟨hs', f.awake hp.2.1, fun he => f.done (hp.2.2 he)⟩⟩
  · next hh =>
    obtain ⟨hq, hs'⟩ := hp.1.serves hv h
    refine ⟨n, b, hq.frame, hq.served, ?_⟩
    simp only [Phase, hq.frame.handler, hh]
    exact ⟨hs', by rw [hq.writer]; exact hp.2.1, hq.frame.awake hp.2.2.1, fun he => hq.frame.done (hp.2.2.2 he)⟩
  · next hh =>
    obtain ⟨hq, hs'⟩ := hp.1.serves hv h
    refine ⟨n, b, hq.frame, hq.served, ?_⟩
    simp only [Phase, hq.frame.handler, hh]
    exact ⟨hs', hq.frame.awake hp.2.1, fun he => hq.frame.done (hp.2.2 he)⟩
  · next hh =>
    obtain ⟨hq, hs'⟩ := hp.1.serves hv h
    refine ⟨n, b, hq.frame, hq.served, ?_⟩
    simp only [Phase, hq.frame.handler, hh]
    exact ⟨hs', hq.frame.awake hp.2.1, fun he => hq.frame.done (hp.2.2 he)⟩
  · next hh =>
    obtain ⟨hq, hs'⟩ := hp.1.serves hv h
    refine ⟨n, b, hq.frame, hq.served, ?_⟩
    simp only [Phase, hq.frame.handler, hh]
    exact ⟨hs', hq.frame.awake hp.2.1, fun he => hq.frame.done (hp.2.2 he)⟩
  · next hh =>
    obtain ⟨b', f, hv', hs'⟩ := hp.1.serves hv hp.2 h
    exact ⟨n, b', f, hv', by simpa only [Phase, f.handler, hh] using ⟨hs', f.awake hp.2⟩⟩
  · next hh =>
    obtain ⟨b', f, hv', hs'⟩ := hp.1.serves hv hp.2.1 h
    exact ⟨n, b', f, hv', by simpa only [Phase, f.handler, hh] using ⟨hs', f.awake hp.2.1, f.done hp.2.2⟩⟩
  · next hh =>
    obtain ⟨b', f, hv', hs'⟩ := hp.1.serves hv hp.2.1 h
    exact ⟨n, b', f, hv', by simpa only [Phase, f.handler, hh] using ⟨hs', f.awake hp.2.1, f.done hp.2.2⟩⟩
  · exact hp.elim

/-! ## The inspection -/

variable {N : Type} {e : Env N} {next : Program}

theorem sent_status (hsent : client.sent = []) (hn : 200 ≤ n) : Shown n [] (client.call (.writeHeader n)).sent := by
  refine ⟨client.header, [], ?_, rfl⟩
  have h1 : ¬ (100 ≤ n ∧ n < 200 ∧ n ≠ 101) := by omega
  have h2 : n ≠ 0 := by omega
  simp [Client.call, Client.writeHeader, Client.wroteHeader, hsent, orOK, h1, h2]

theorem sent_flush (hsent : client.sent = []) : Shown 0 [] (client.call .flush).sent :=
  ⟨client.header, [], by simp [Client.call, Client.writeHeader, Client.wroteHeader, hsent, orOK], rfl⟩

theorem Phase.inspects (hp : Phase n b s) (hv : Served n b s) (hok : passesOn s .inspect = true)
    (h : inspectStep e next s = some s') :
    s'.verdict = some .prefill ∨ s'.calls = s.calls ∧ Served n b s' ∧ Phase n b s' := by
  unfold Phase at hp
  unfold inspectStep at h
  split at hp
  · next hh =>
    simp only [hh] at h
    split at h
    · next hw =>
      cases h
      refine .inr ⟨rfl, { hv with }, { hp with }, ?_⟩
      rcases Bool.or_eq_true_iff.mp hw with hr | hd
      · exact .inl (hv.ready hr)
      · exact .inr hd
    · cases h
  · next hh =>
    simp only [hh] at h
    cases h
    refine .inr ⟨rfl, { hv with }, ?_⟩
    by_cases herr : isHTTPError s.writer.statusCode = true
    · simp only [Phase, herr, if_true]
      exact ⟨{ hp.1 with }, hp.2, fun _ => by simpa [passesOn, hh, herr] using hok⟩
    · simp only [Phase, herr]
      exact ⟨{ hp.1 with }, hp.2⟩
  · next hh =>
    simp only [hh] at h
    cases h
    by_cases hc : e.checkBufferedResponseForCacheThreshold s.writer.buffer = true
    · exact .inl (by simp [verdict, hc])
    · refine .inr ⟨rfl, { hv with }, ?_⟩
      simp only [Phase, hc]
      exact ⟨{ hp.1 with }, hp.2, fun e => by cases e⟩
  · next err hh =>
    simp only [hh] at h
    rw [if_pos hp.1.buffering] at h
    cases h
    exact .inr ⟨rfl, { hv with }, { hp.1 with mu := rfl }, hp.1.wroteHeader, hp.2.1, hp.2.2⟩
  · next err hh =>
    simp only [hh, hp.2.1, Bool.false_or] at h
    cases h
    refine .inr ⟨rfl, { hv with }, { hp.1 with sent := ?_ }, hp.2.2.1, hp.2.2.2⟩
    by_cases hn : n = 0
    · exact .inl ⟨hn, by simp [hp.1.statusCode, hn, hp.1.sent]⟩
    · refine .inr ⟨hn, ?_⟩
      simp only [hp.1.statusCode, hn, decide_false]
      exact sent_status hp.1.sent (hv.final.resolve_left hn)
  · next err hh =>
    simp only [hh] at h
    cases h
    refine .inr ⟨rfl, { hv with }, { hp.1 with sent := ?_ }, hp.2.1, hp.2.2⟩
    rcases hp.1.sent with ⟨hn, hsent⟩ | ⟨hn, hshown⟩
    · exact .inl ⟨hn, by simp [hp.1.buffer, hv.body hn, hsent]⟩
    · right
      by_cases hb : b = []
      · simpa only [hp.1.buffer, hb, if_true] using hshown
      · simpa only [hp.1.buffer, hb, if_false, bodyOf, List.flatMap_cons, List.flatMap_nil, List.append_nil,
          List.nil_append] using hshown.call (.write b)
  · next err hh =>
    simp only [hh] at h
    cases h
    refine .inr ⟨rfl, { hv with }, { hp.1 with sent := ?_ }, hp.2.1, hp.2.2⟩
    rcases hp.1.sent with ⟨hn, hsent⟩ | hshown
    · rw [hv.body hn, hn]
      exact sent_flush hsent
    · simpa [bodyOf] using hshown.call .flush
  · next err hh =>
    simp only [hh] at h
    cases h
    refine .inr ⟨rfl, { hv with }, ?_⟩
    cases err with
    | true => exact ⟨⟨rfl, hp.1.sent⟩, hp.2.1, hp.2.2 rfl⟩
    | false => exact ⟨⟨rfl, hp.1.sent⟩, hp.2.1⟩
  · next hh =>
    simp only [hh] at h
    split at h
    · next hd =>
      cases h
      exact .inr ⟨rfl, { hv with }, { hp.1 with }, hp.2, hd⟩
    · cases h
  · next hh => simp [hh] at h
  · next hh => simp [hh] at h
  · exact hp.elim

/-! ## Whole runs -/

theorem Phase.not_buffered (hp : Phase n b s) (dw : BufferedResponseWriter) : s.handler ≠ .buffered dw := by
  intro hh
  simp [Phase, hh] at hp

theorem Phase.returned (hp : Phase n b s) {v : Verdict} (hv : s.verdict = some v) :
    Direct n b s ∧ s.done = true := by
  unfold Phase at hp
  split at hp
  case h_10 => exact ⟨hp.1, hp.2.2⟩
  case h_11 => exact ⟨hp.1, hp.2.2⟩
  case h_12 => exact hp.elim
  all_goals
    next hh => simp [verdict, hh] at hv

/-- The invariant of a streamed attempt. -/
def Passes (calls : List WriterCall) (s : Attempt) : Prop :=
  s.verdict = some .prefill ∨ ∃ n b, Passing calls s n b

theorem passes_start (calls : List WriterCall) : Passes calls (start true calls) := by
  refine .inr ⟨0, [], rfl, rfl, ⟨nofun, nofun, nofun, ?_, fun _ => rfl, .inl rfl⟩, ?_⟩
  · simp [start]
  · exact { buffering := rfl, buffer := rfl, statusCode := rfl, sent := rfl, wroteHeader := rfl }

theorem Passes.step {a : Act} (hp : Passes calls s) (hok : passesOn s a = true)
    (h : step e next s a = some s') : Passes calls s' := by
  rcases hp with hv | ⟨n, b, hp⟩
  · exact .inl (verdict_step h hv)
  cases a with
  | serve =>
    obtain ⟨n', b', f, hv', hp'⟩ :=
      hp.phase.serves hp.served hok (serves_of_serveStep hp.phase.not_buffered h)
    exact .inr ⟨n', b', f.status.trans hp.status, f.body.trans hp.body, hv', hp'⟩
  | inspect =>
    rcases hp.phase.inspects hp.served hok h with hv | ⟨hcalls, hv', hp'⟩
    · exact .inl hv
    · exact .inr ⟨n, b, hcalls ▸ hp.status, hcalls ▸ hp.body, hv', hp'⟩
  | clientFails => cases hok
  | reply r =>
    -- the program behind a verdict other than prefill is over
    have hph := hp.phase
    simp only [Attempt.step, replyStep] at h
    split at h
    · next hh => simp [Phase, hh] at hph
    · next hh => simp [Phase, hh] at hph
    · next hh => simp [Phase, hh] at hph
    · cases h
  | write =>
    have hph := hp.phase
    simp only [Attempt.step] at h
    split at h
    · next hh => simp [Phase, hh] at hph
    · next hh => simp [Phase, hh] at hph
    · cases h

theorem Shown.passed (h : Shown n (bodyOf calls) client.sent)
    (hn : orOK n = statusFrom 0 calls) : passed calls client = true := by
  obtain ⟨header, bodies, hsent, hb⟩ := h
  simp [Sidecar.passed, hsent, hn, Sent.bytes, List.flatMap_map, ← hb, List.flatMap_id']

end Attempt

/-! ## The response passed on -/

/-- **A streamed response is passed on whole.** In every run that meets no
informational status in the buffering mode, no error status of an incomplete
response and no error of the client's writer, a return without prefill finds
the client with the response's status, once and first, and its whole body. -/
theorem streamed_response_passed_on {N : Type} (e : Env N) (next : Program) (calls : List WriterCall) (s : Attempt)
    (h : Reaches (Attempt.step e next) (fun s a => s.passesOn a = true) (.start true calls) s)
    (v : Verdict) (hv : s.verdict = some v) (hne : v ≠ .prefill) : passed calls s.client = true := by
  have hp : Attempt.Passes calls s :=
    h.invariant _ (Attempt.passes_start calls) fun _ _ _ hp hok hs => hp.step hok hs
  rcases hp with hpre | ⟨n, b, hp⟩
  · rw [hv, Option.some.injEq] at hpre
    exact absurd hpre hne
  · obtain ⟨hd, hdone⟩ := hp.phase.returned hv
    have hcalls := hp.served.finished hdone
    have hb : b = bodyOf calls := by simpa [hcalls, bodyOf] using hp.body
    exact (hb ▸ hd.sent).passed (by simpa [hcalls, statusFrom] using hp.status)

/-- Two events and a third one. -/
def threeEvents (statusCode : Nat) : List WriterCall :=
  [.addHeader "content-type".toList "text/event-stream".toList, .writeHeader statusCode,
    .write "data: 1\n\ndata: 2\n\n".toList, .flush, .write "data: 3\n\n".toList, .flush]

/-- The third event is written while the buffer is: its call has seen the
buffering mode and waits for the lock. -/
theorem streamed_response_passed_on_switching : ∃ s,
    Reaches (Attempt.step sharedStorageSidecar .done) (fun s a => s.passesOn a = true) (.start true (threeEvents 200)) s ∧
      s.verdict = some .succeeded ∧ passed (threeEvents 200) s.client = true := by
  obtain ⟨s, hs, hv⟩ := exists_of_runIf (Attempt.step sharedStorageSidecar .done) (fun s a => s.passesOn a = true)
    (.start true (threeEvents 200))
    (.replicate 8 .serve ++ .replicate 5 .inspect ++ [.serve] ++ .replicate 3 .inspect ++ .replicate 3 .serve ++ [.inspect])
    (fun s => s.verdict = some .succeeded) (by decide +kernel)
  exact ⟨s, hs, hv, streamed_response_passed_on _ _ _ s hs _ hv (by decide)⟩

/-- An error status is returned after two events: the third one has not been
sent. -/
theorem error_stream_cut_off : ∃ s,
    Reaches (Attempt.step sharedStorageSidecar .done) Any (.start true (threeEvents 500)) s ∧
      s.verdict = some .failed ∧ passed (threeEvents 500) s.client = false :=
  exists_of_run (Attempt.step sharedStorageSidecar .done) (.start true (threeEvents 500))
    (.replicate 5 .serve ++ .replicate 7 .inspect) _ (by decide +kernel)

end InferenceScheduler.Sidecar
