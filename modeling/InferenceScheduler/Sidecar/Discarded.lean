/-
What is left of a first decode attempt whose response asked for prefill. The
attempt is compared with a run of the same handler that never made it
(`Attempt.without`). A buffered attempt has a writer of its own; a streamed one
shares the client's header map, and what it puts there stays.
-/
import InferenceScheduler.Sidecar.TryDecode
import InferenceScheduler.Sidecar.Containment

namespace InferenceScheduler.Sidecar

namespace Attempt

/-- The step is not one of a streamed first response on the header map. -/
def leavesHeader (s : Attempt) : Act → Bool
  | .serve =>
    match s.handler, s.calls with
    | .buffered _, _ => true
    | _, c :: _ => !c.isHeader
    | _, [] => true
  | _ => true

/-- The first attempt has not been decided on, or has been discarded. -/
def Untraced {N : Type} (e : Env N) (next : Program) (s : Attempt) : Prop :=
  match s.handler with
  | .buffered _ => s.client = {} ∧ s.log = [] ∧ s.writer.buffering = true
  | .streaming .select | .streaming .status | .streaming .check =>
    s.client = {} ∧ s.log = [] ∧ s.writer.buffering = true
  | .running .prefill _ | .writing .prefill _ _ =>
    s.writer.buffering = true ∧
      ∃ s', Reaches (step e next) Any (without next) s' ∧
        s'.handler = s.handler ∧ s'.client = s.client ∧ s'.log = s.log
  | _ => True

variable {N : Type} {e : Env N} {next : Program} {s s' : Attempt}

theorem Serves.untraced (h : Serves s s') (hok : ∀ c calls, s.calls = c :: calls → c.isHeader = false)
    (hb : s.writer.buffering = true) :
    s'.writer.buffering = true ∧ s'.client = s.client ∧ s'.log = s.log ∧ s'.handler = s.handler := by
  cases h with
  | direct hcalls hd => simp [hok _ _ hcalls, hb] at hd
  | _ => exact ⟨hb, rfl, rfl, rfl⟩

theorem leavesHeader_serve (hh : ∀ dw, s.handler ≠ .buffered dw) (hok : leavesHeader s .serve = true)
    (c : WriterCall) (calls : List WriterCall) (hcalls : s.calls = c :: calls) : c.isHeader = false := by
  simp only [leavesHeader, hcalls] at hok
  simpa using hok

theorem Untraced.serve (hu : Untraced e next s) (hok : leavesHeader s .serve = true) (h : serveStep s = some s') :
    Untraced e next s' := by
  by_cases hh : ∃ dw, s.handler = .buffered dw
  · obtain ⟨dw, hh⟩ := hh
    simp only [Untraced, hh] at hu
    cases hcalls : s.calls with
    | nil =>
      simp only [serveStep, hh, hcalls] at h
      split at h
      · cases h
      · cases h
        simpa only [Untraced, hh] using hu
    | cons c calls =>
      simp only [serveStep, hh, hcalls] at h
      cases h
      exact hu
  · have hh : ∀ dw, s.handler ≠ .buffered dw := fun dw hdw => hh ⟨dw, hdw⟩
    have hserves := serves_of_serveStep hh h
    have key := hserves.untraced (leavesHeader_serve hh hok)
    unfold Untraced at hu ⊢
    rw [hserves.handler]
    split at hu
    · next hdw => exact absurd hdw (hh _)
    · obtain ⟨hw, hc, hl, -⟩ := key hu.2.2
      exact ⟨hc.trans hu.1, hl.trans hu.2.1, hw⟩
    · obtain ⟨hw, hc, hl, -⟩ := key hu.2.2
      exact ⟨hc.trans hu.1, hl.trans hu.2.1, hw⟩
    · obtain ⟨hw, hc, hl, -⟩ := key hu.2.2
      exact ⟨hc.trans hu.1, hl.trans hu.2.1, hw⟩
    · next hh' =>
      obtain ⟨hw, hc, hl, -⟩ := key hu.1
      exact ⟨hw, by simpa only [hc, hl, hh'] using hu.2⟩
    · next hh' =>
      obtain ⟨hw, hc, hl, -⟩ := key hu.1
      exact ⟨hw, by simpa only [hc, hl, hh'] using hu.2⟩
    · trivial

theorem untraced_discard (hc : s.client = {}) (hl : s.log = []) (hb : s.writer.buffering = true) :
    Untraced e next { s with handler := .running .prefill next } :=
  ⟨hb, without next, .init, rfl, hc.symm, hl.symm⟩

theorem Untraced.inspect (hu : Untraced e next s) (h : inspectStep e next s = some s') : Untraced e next s' := by
  unfold inspectStep at h
  split at h
  · next dw hh =>
    simp only [Untraced, hh] at hu
    split at h
    · split at h
      · cases h
        exact untraced_discard hu.1 hu.2.1 hu.2.2
      · next v calls hne _ =>
        cases h
        cases v with
        | prefill => exact (hne rfl).elim
        | failed | succeeded => trivial
    · cases h
  · next hh =>
    simp only [Untraced, hh] at hu
    split at h
    · cases h
      exact hu
    · cases h
  · next hh =>
    simp only [Untraced, hh] at hu
    cases h
    by_cases herr : isHTTPError s.writer.statusCode = true
    · simp only [Untraced, herr, if_true]
    · rw [if_neg herr]
      exact hu
  · next hh =>
    simp only [Untraced, hh] at hu
    cases h
    by_cases hc : e.checkBufferedResponseForCacheThreshold s.writer.buffer = true
    · rw [if_pos hc]
      exact untraced_discard hu.1 hu.2.1 hu.2.2
    · rw [if_neg hc]
      trivial
  · split at h
    · cases h
      trivial
    · next err _ _ =>
      cases h
      cases err <;> trivial
  · cases h; trivial
  · cases h; trivial
  · cases h; trivial
  · next err _ =>
    cases h
    cases err <;> trivial
  · split at h
    · cases h
      trivial
    · cases h
  · cases h

theorem step_congr {s₀ : Attempt} {a : Act} (ha : (∃ r, a = .reply r) ∨ a = .write) (hh : s₀.handler = s.handler)
    (hc : s₀.client = s.client) (hl : s₀.log = s.log) (h : step e next s a = some s') :
    ∃ s₀', step e next s₀ a = some s₀' ∧
      s₀'.handler = s'.handler ∧ s₀'.client = s'.client ∧ s₀'.log = s'.log ∧ s'.writer = s.writer := by
  rcases ha with ⟨r, rfl⟩ | rfl
  · simp only [step, replyStep, hh] at h ⊢
    split at h
    · cases h
      exact ⟨_, rfl, rfl, hc, by simp [hl], rfl⟩
    · cases h
      exact ⟨_, rfl, rfl, hc, by simp [hl], rfl⟩
    · cases h
      exact ⟨_, rfl, rfl, hc, by simp [hl], rfl⟩
    · cases h
  · simp only [step, hh] at h ⊢
    split at h
    · cases h
      exact ⟨_, rfl, rfl, by simp [hc], hl, rfl⟩
    · cases h
      exact ⟨_, rfl, rfl, hc, hl, rfl⟩
    · cases h

theorem verdict_isSome {a : Act} (ha : (∃ r, a = .reply r) ∨ a = .write) (h : step e next s a = some s') :
    s.verdict.isSome = true := by
  rcases ha with ⟨r, rfl⟩ | rfl
  · simp only [step, replyStep] at h
    split at h
    · next hh => simp [verdict, hh]
    · next hh => simp [verdict, hh]
    · next hh => simp [verdict, hh]
    · cases h
  · simp only [step] at h
    split at h
    · next hh => simp [verdict, hh]
    · next hh => simp [verdict, hh]
    · cases h

theorem untraced_iff_of_verdict {v : Verdict} (hv : s.verdict = some v) :
    Untraced e next s ↔ (v = .prefill → s.writer.buffering = true ∧
      ∃ s', Reaches (step e next) Any (without next) s' ∧
        s'.handler = s.handler ∧ s'.client = s.client ∧ s'.log = s.log) := by
  unfold verdict at hv
  split at hv
  · next v' p hh =>
    cases hv
    cases v <;> simp [Untraced, hh]
  · next v' calls p hh =>
    cases hv
    cases v <;> simp [Untraced, hh]
  · cases hv

theorem Untraced.later {a : Act} (ha : (∃ r, a = .reply r) ∨ a = .write) (hu : Untraced e next s)
    (h : step e next s a = some s') : Untraced e next s' := by
  obtain ⟨v, hv⟩ := Option.isSome_iff_exists.mp (verdict_isSome ha h)
  rw [untraced_iff_of_verdict hv] at hu
  rw [untraced_iff_of_verdict (verdict_step h hv)]
  intro hpre
  obtain ⟨hb, s₀, hr, hh, hc, hl⟩ := hu hpre
  obtain ⟨s₀', hs, hh', hc', hl', hw⟩ := step_congr ha hh hc hl h
  exact ⟨hw ▸ hb, s₀', hr.next trivial hs, hh', hc', hl'⟩

theorem Untraced.step {a : Act} (hu : Untraced e next s) (hok : leavesHeader s a = true)
    (h : step e next s a = some s') : Untraced e next s' := by
  cases a with
  | serve => exact hu.serve hok h
  | inspect => exact hu.inspect h
  | clientFails =>
    simp only [Attempt.step] at h
    split at h
    · split at h
      · cases h
      · cases h
        trivial
    · cases h
  | reply r => exact hu.later (.inl ⟨r, rfl⟩) h
  | write => exact hu.later (.inr rfl) h

theorem untraced_start (streams : Bool) (calls : List WriterCall) : Untraced e next (start streams calls) := by
  cases streams <;> exact ⟨rfl, rfl, rfl⟩

end Attempt

/-- **A discarded attempt leaves no trace** when it is not streamed, or makes no
call on the header map: the handler and the client are where a run without the
attempt brings them, by the same requests with the same replies. -/
theorem discarded_attempt_untraced {N : Type} (e : Env N) (r : HttpRequest) (prefillPodHostPort : GoString)
    (request : Option (Fields N)) (calls : List WriterCall) (s : Attempt)
    (h : Reaches (Attempt.step e (e.prefillThenDecode r prefillPodHostPort request))
      (fun s a => s.leavesHeader a = true) (.start (e.streams (request.getD [])) calls) s)
    (hv : s.verdict = some .prefill) :
    ∃ s', Reaches (Attempt.step e (e.prefillThenDecode r prefillPodHostPort request)) Any
        (.without (e.prefillThenDecode r prefillPodHostPort request)) s' ∧
      s'.handler = s.handler ∧ s'.client = s.client ∧ s'.log = s.log := by
  have hu := h.invariant _ (Attempt.untraced_start _ calls) fun _ _ _ hu hok hs => hu.step hok hs
  exact ((Attempt.untraced_iff_of_verdict hv).mp hu rfl).2

/-! ## Runs -/

/-- A request with a threshold. -/
def thresholdRequest (stream : Bool) : Option (Fields Nat) :=
  some [(requestFieldCacheHitThreshold, .number 1), (requestFieldStream, .bool stream)]

def emptyRequest : HttpRequest := { header := [], body := .ok [] }

def afterAttempt (stream : Bool) : Program :=
  sharedStorageSidecar.prefillThenDecode emptyRequest "10.0.0.7:8000".toList (thresholdRequest stream)

def contentType (value : String) : WriterCall := .addHeader "content-type".toList value.toList

/-- A response that asks for prefill, as events or as one object. -/
def belowThreshold : Bool → List WriterCall
  | true => [contentType "text/event-stream", .writeHeader 200,
      .write "data: \x7b\"choices\":[\x7b\"finish_reason\":\"cache_threshold\"\x7d]\x7d\n\ndata: [DONE]\n\n".toList]
  | false => [contentType "application/json", .writeHeader 200,
      .write "\x7b\"choices\":[\x7b\"finish_reason\":\"cache_threshold\"\x7d]\x7d".toList]

/-- The prefiller succeeds; the decoder answers the second request. -/
def secondReply (stream : Bool) : (c : Call) → c.Reply
  | .proxy (.prefiller _) _ _ => [.writeHeader 200]
  | .proxy (.encoder _) _ _ | .proxy .decoder _ _ | .proxy (.rank _) _ _ =>
    [contentType (if stream then "text/event-stream" else "application/json"), .writeHeader 200, .write "hi".toList]
  | .answer _ => ()
  | .inspect => Verdict.failed
  | .gather => (none : Option Text)

/-- The steps behind the attempt. -/
def laterSteps (stream : Bool) : List Attempt.Act :=
  [.reply (secondReply stream), .reply (secondReply stream), .write, .write, .write]

theorem discarded_attempt_untraced_buffered : ∃ s,
    Reaches (Attempt.step sharedStorageSidecar (afterAttempt false)) (fun s a => s.leavesHeader a = true)
      (.start (sharedStorageSidecar.streams ((thresholdRequest false).getD [])) (belowThreshold false)) s ∧
    s.client.sent = [.status 200 [("content-type".toList, ["application/json".toList])], .body "hi".toList] ∧
    ∃ s', Reaches (Attempt.step sharedStorageSidecar (afterAttempt false)) Any (.without (afterAttempt false)) s' ∧
      s'.handler = s.handler ∧ s'.client = s.client ∧ s'.log = s.log := by
  obtain ⟨s, hs, h⟩ := exists_of_runIf (Attempt.step sharedStorageSidecar (afterAttempt false))
    (fun s a => s.leavesHeader a = true)
    (.start (sharedStorageSidecar.streams ((thresholdRequest false).getD [])) (belowThreshold false))
    ([.serve, .serve, .serve, .inspect] ++ laterSteps false)
    (fun s => s.verdict = some .prefill ∧ s.client.sent =
      [.status 200 [("content-type".toList, ["application/json".toList])], .body "hi".toList]) (by decide +kernel)
  exact ⟨s, hs, h.2, discarded_attempt_untraced _ _ _ _ _ s hs h.1⟩

/-- The client finds the content type twice where a run without the attempt
sends it once. -/
theorem discarded_attempt_header_kept :
    ((run (Attempt.step sharedStorageSidecar (afterAttempt true))
        (.start (sharedStorageSidecar.streams ((thresholdRequest true).getD [])) (belowThreshold true))
        (.replicate 5 .serve ++ .replicate 3 .inspect ++ laterSteps true)).any fun s =>
      s.verdict = some .prefill && s.client.sent =
        [.status 200 [("content-type".toList, ["text/event-stream".toList, "text/event-stream".toList])],
          .body "hi".toList]) = true ∧
    ((run (Attempt.step sharedStorageSidecar (afterAttempt true)) (.without (afterAttempt true)) (laterSteps true)).any
      fun s => s.client.sent =
        [.status 200 [("content-type".toList, ["text/event-stream".toList])], .body "hi".toList]) = true := by
  decide +kernel

end InferenceScheduler.Sidecar
