/-
How often `director.HandleResponseBody` is told that the stream has ended. While
`Process` runs, `ResponseComplete` says whether such a call has been made
(`Open`, `Closed`); the deferred clean-up makes it in every other way to return.
-/
import InferenceScheduler.Handlers.Progress

namespace InferenceScheduler.Handlers

variable {P N : Type}

/-! ## Conforming proxies -/

/-- After this message no response body follows. -/
def Message.endsResponse : Message → Bool
  | .responseBody _ endOfStream => endOfStream
  | .responseTrailers => true
  | _ => false

def Message.isResponseBody : Message → Bool
  | .responseBody _ _ => true
  | _ => false

def Event.message? : Event N → Option Message
  | .recv req _ => some req.request
  | _ => none

/-- No response body after one that ends the stream or after trailers. -/
def Conforming (es : List (Event N)) : Prop :=
  (es.filterMap Event.message?).Pairwise fun m m' => m.endsResponse = true → m'.isResponseBody = false

/-- No response body is to come. -/
def NoBody (es : List (Event N)) : Prop := ∀ ev ∈ es, ∀ m, ev.message? = some m → m.isResponseBody = false

variable {es : List (Event N)} {ev : Event N}

theorem Conforming.tail (h : Conforming (ev :: es)) : Conforming es := by
  unfold Conforming at h ⊢
  cases hm : ev.message? with
  | none => simpa [List.filterMap_cons, hm] using h
  | some m =>
    rw [List.filterMap_cons_some hm] at h
    exact (List.pairwise_cons.mp h).2

theorem Conforming.noBody {m : Message} (h : Conforming (ev :: es))
    (hm : ev.message? = some m) (he : m.endsResponse = true) : NoBody es := by
  unfold Conforming at h
  rw [List.filterMap_cons_some hm] at h
  intro ev' hev m' hm'
  exact (List.pairwise_cons.mp h).1 m' (List.mem_filterMap.mpr ⟨ev', hev, hm'⟩) he

theorem NoBody.tail (h : NoBody (ev :: es)) : NoBody es :=
  fun ev' hev => h ev' (List.mem_cons_of_mem _ hev)

/-! ## The calls -/

/-- The last call, and only the last, was told that the stream has ended. -/
def EndsOnce (calls : List Bool) : Prop := ∃ l, calls = l ++ [true] ∧ ∀ b ∈ l, b = false

theorem EndsOnce.count {calls : List Bool} (h : EndsOnce calls) : calls.count true = 1 := by
  obtain ⟨l, rfl, hl⟩ := h
  have hzero : l.count true = 0 := List.count_eq_zero.mpr fun hmem => Bool.noConfusion (hl _ hmem)
  rw [List.count_append, hzero, List.count_singleton_self]

theorem EndsOnce.getLast? {calls : List Bool} (h : EndsOnce calls) : calls.getLast? = some true := by
  obtain ⟨l, rfl, -⟩ := h
  exact List.getLast?_concat

/-- No call has been told yet that the stream has ended. -/
def Open (p : Process P N) : Prop := p.reqCtx.responseComplete = false ∧ ∀ b ∈ p.calls, b = false

/-- The last call has been told so. -/
def Closed (p : Process P N) : Prop := p.reqCtx.responseComplete = true ∧ EndsOnce p.calls

theorem Open.congr {p p' : Process P N} (h : Open p)
    (hc : p'.reqCtx.responseComplete = p.reqCtx.responseComplete) (hl : p'.calls = p.calls) : Open p' :=
  ⟨hc.trans h.1, hl ▸ h.2⟩

theorem Closed.congr {p p' : Process P N} (h : Closed p)
    (hc : p'.reqCtx.responseComplete = p.reqCtx.responseComplete) (hl : p'.calls = p.calls) : Closed p' :=
  ⟨hc.trans h.1, hl ▸ h.2⟩

namespace Server

variable (s : Server P N)

theorem responseComplete_handleResponseBody (p : Process P N) (bytes : Bytes) (endOfStream : Bool) :
    (s.handleResponseBody p bytes endOfStream).reqCtx.responseComplete = p.reqCtx.responseComplete :=
  (s.directorResponseBody_sameEnd _ endOfStream).1.trans (s.recordUsage_sameEnd _ bytes endOfStream).1

variable {p : Process P N}

theorem closed_finishResponse (h : Open p ∨ Closed p) (body : Bytes) (streaming setEos : Bool) :
    Closed (s.finishResponse p body streaming setEos) := by
  rw [finishResponse]
  rcases h with h | h
  · have hclosed : Closed (s.handleResponseBody
        { p with reqCtx := { p.reqCtx with responseComplete := true } } body true) :=
      ⟨s.responseComplete_handleResponseBody _ body true, p.calls, rfl, h.2⟩
    rw [if_neg (by simp [h.1])]
    dsimp only
    split
    · exact hclosed
    · exact hclosed.congr rfl rfl
  · rw [if_pos h.1]
    exact h

variable {req : ProcessingRequest N}

theorem handle_quiet (p : Process P N) (d : Decisions)
    (hb : req.request.isResponseBody = false) (he : req.request.endsResponse = false) :
    (s.handle p req d).1.reqCtx.responseComplete = p.reqCtx.responseComplete ∧
      (s.handle p req d).1.calls = p.calls := by
  rw [handle]
  cases hm : req.request with
  | requestHeaders headers endOfStream =>
    dsimp only
    generalize hr : (if extractHeaderValue headers requestIdHeaderKey = [] then _ else _ : RequestContext P N) = r
    have hrc : r.responseComplete = p.reqCtx.responseComplete := by
      rw [← hr]
      split_ifs <;> rfl
    have h := congrArg Progress.responseComplete (progress_handleRequestHeaders r headers endOfStream d)
    split
    · next r' hx =>
      rw [hx] at h
      exact ⟨h.trans hrc, rfl⟩
    · next r' e hx =>
      rw [hx] at h
      exact ⟨h.trans hrc, rfl⟩
  | requestBody chunk endOfStream =>
    dsimp only
    split
    · rw [handleRequestBody]
      dsimp only
      split
      · exact ⟨rfl, rfl⟩
      next body _ =>
      have h := fun r => congrArg Progress.responseComplete (s.progress_handleRequest r body d)
      split
      · next hx => exact ⟨(congrArg (fun x => (outcome x).responseComplete) hx).symm.trans (h _), rfl⟩
      · next hx => exact ⟨(congrArg (fun x => (outcome x).responseComplete) hx).symm.trans (h _), rfl⟩
    · exact ⟨rfl, rfl⟩
  | requestTrailers | responseHeaders headers endOfStream => exact ⟨rfl, rfl⟩
  | responseBody | responseTrailers => simp [hm, Message.isResponseBody, Message.endsResponse] at hb he

theorem streamChunk_ends (h : Open p) (chunk : Bytes) (endOfStream : Bool) :
    if endOfStream then Closed (s.streamChunk p chunk endOfStream) else Open (s.streamChunk p chunk endOfStream) := by
  have hcomplete : (s.streamChunk p chunk endOfStream).reqCtx.responseComplete =
      (p.reqCtx.responseComplete || endOfStream) := s.responseComplete_handleResponseBody _ chunk endOfStream
  cases endOfStream with
  | true => exact ⟨hcomplete.trans (Bool.or_true _), p.calls, rfl, h.2⟩
  | false =>
    refine ⟨hcomplete.trans ((Bool.or_false _).trans h.1), fun b hb => ?_⟩
    rcases List.mem_append.mp hb with hb | hb
    · exact h.2 b hb
    · exact List.mem_singleton.mp hb

theorem bufferChunk_ends (h : Open p) (chunk : Bytes) (endOfStream : Bool) :
    if endOfStream then Closed (s.bufferChunk p chunk endOfStream) else Open (s.bufferChunk p chunk endOfStream) := by
  have h' : Open { p with body := p.body ++ chunk } := h
  cases endOfStream with
  | true => exact s.closed_finishResponse (.inl h') _ _ _
  | false => exact h'

theorem handle_responseBody (h : Open p) (d : Decisions) {chunk : Bytes}
    {endOfStream : Bool} (hm : req.request = .responseBody chunk endOfStream) :
    if endOfStream then Closed (s.handle p req d).1 else Open (s.handle p req d).1 := by
  have h' : Open { p with reqCtx := { p.reqCtx with metadata := req.metadataContext } } := h
  rw [handle, hm]
  dsimp only
  by_cases hs : p.reqCtx.modelServerStreaming = true
  · rw [if_pos hs]
    exact s.streamChunk_ends h' chunk endOfStream
  · rw [if_neg hs]
    exact s.bufferChunk_ends h' chunk endOfStream

theorem handle_responseTrailers (h : Open p ∨ Closed p) (d : Decisions)
    (hm : req.request = .responseTrailers) : Closed (s.handle p req d).1 := by
  rw [handle, hm]
  exact (s.closed_finishResponse (h.imp (·.congr rfl rfl) (·.congr rfl rfl)) _ _ _).congr rfl rfl

/-! ## Returning -/

/-- What is to hold once `Process` has returned. -/
def Accounted (p : Process P N) : Prop := p.returned.isSome ∧ (p.reqCtx.targetPod.isSome → EndsOnce p.calls)

theorem accounted_exit (h : Open p ∨ Closed p) (how : Return) : Accounted (s.exit p how) := by
  rw [exit]
  dsimp only
  split
  · next hc =>
    simp only [Bool.and_eq_true, Bool.not_eq_true'] at hc
    rcases h with h | h
    · exact ⟨rfl, fun _ => ⟨p.calls, rfl, h.2⟩⟩
    · exact absurd h.1 (by simp [hc.2])
  · next hc =>
    refine ⟨rfl, fun hpod => ?_⟩
    rcases h with h | h
    · exact absurd hpod (by simpa [h.1] using hc)
    · exact h.2

theorem respond_ends (h : Open p ∨ Closed p) (hr : p.returned = none) (err : Option Error) :
    (s.respond p err).returned = none ∧ (s.respond p err).calls = p.calls ∧
      (s.respond p err).reqCtx.responseComplete = p.reqCtx.responseComplete ∨ Accounted (s.respond p err) := by
  cases err with
  | some e =>
    refine .inr ?_
    rw [respond]
    split
    · exact s.accounted_exit h _
    · exact s.accounted_exit (h.imp (·.congr rfl rfl) (·.congr rfl rfl)) _
  | none =>
    have hs := updateStateAndSendIfNeeded_sameEnd p.reqCtx p.srv
    simp only [respond]
    split
    · exact .inl ⟨hr, rfl, hs.1⟩
    · exact .inr (s.accounted_exit (h.imp (·.congr hs.1 rfl) (·.congr hs.1 rfl)) _)

/-! ## Runs -/

/-- What every round keeps, with the messages that are still to come. -/
def EndsInv (es : List (Event N)) (p : Process P N) : Prop :=
  p.returned = none ∧ (Open p ∧ Conforming es ∨ Closed p ∧ NoBody es) ∨ Accounted p

theorem endsInv_step {p' : Process P N} {ev : Event N} {es : List (Event N)} (h : EndsInv (ev :: es) p)
    (hstep : s.step p ev = some p') : EndsInv es p' := by
  unfold step at hstep
  split at hstep
  · cases hstep
  next hnone =>
  have hr : p.returned = none := by simpa using hnone
  rcases h with ⟨-, h⟩ | h
  swap
  · exact absurd h.1 hnone
  have hoc : Open p ∨ Closed p := h.imp (·.1) (·.1)
  have htail : Open p ∧ Conforming es ∨ Closed p ∧ NoBody es := h.imp (.imp_right .tail) (.imp_right .tail)
  cases ev with
  | recv req d =>
    cases hstep
    -- the calls after the `switch`, by the kind of the message
    have hhandle : Open (s.handle p req d).1 ∧ Conforming es ∨ Closed (s.handle p req d).1 ∧ NoBody es := by
      cases hm : req.request with
      | responseBody chunk endOfStream =>
        rcases h with h | h
        · have hb := s.handle_responseBody h.1 d hm
          cases endOfStream with
          | true => exact .inr ⟨hb, h.2.noBody rfl (by simp [hm, Message.endsResponse])⟩
          | false => exact .inl ⟨hb, h.2.tail⟩
        · have := h.2 _ List.mem_cons_self _ rfl
          simp [hm, Message.isResponseBody] at this
      | responseTrailers =>
        refine .inr ⟨s.handle_responseTrailers hoc d hm, ?_⟩
        rcases h with h | h
        · exact h.2.noBody rfl (by simp [hm, Message.endsResponse])
        · exact h.2.tail
      | _ =>
        have hb : req.request.isResponseBody = false := by simp [hm, Message.isResponseBody]
        have he : req.request.endsResponse = false := by simp [hm, Message.endsResponse]
        obtain ⟨hc, hl⟩ := s.handle_quiet p d hb he
        exact htail.imp (fun x => ⟨x.1.congr hc hl, x.2⟩) fun x => ⟨x.1.congr hc hl, x.2⟩
    have hrun : (s.handle p req d).1.returned = none := (s.handle_stream p req d).2.trans hr
    rcases s.respond_ends (hhandle.imp (·.1) (·.1)) hrun (s.handle p req d).2 with ⟨hn, hc, hrc⟩ | ha
    · exact .inl ⟨hn, hhandle.imp (fun x => ⟨x.1.congr hrc hc, x.2⟩) fun x => ⟨x.1.congr hrc hc, x.2⟩⟩
    · exact .inr ha
  | recvError e | contextDone =>
    cases hstep
    exact .inr (s.accounted_exit hoc _)
  | evict =>
    simp only at hstep
    split at hstep
    · cases hstep
    split at hstep
    · cases hstep
      exact .inl ⟨hr, htail.imp (fun x => ⟨x.1.congr rfl rfl, x.2⟩) fun x => ⟨x.1.congr rfl rfl, x.2⟩⟩
    · cases hstep
      have hs := updateStateAndSendIfNeeded_sameEnd { p.reqCtx with requestState := .requestEvicted } p.srv
      exact .inr (s.accounted_exit (hoc.imp (·.congr hs.1 rfl) (·.congr hs.1 rfl)) _)

theorem endsInv_run : ∀ (es : List (Event N)) {p p' : Process P N}, EndsInv es p → run s.step p es = some p' →
    EndsInv [] p'
  | [], p, p', h, hrun => by
    simp only [run, Option.some.injEq] at hrun
    exact hrun ▸ h
  | ev :: es, p, p', h, hrun => by
    simp only [run, Option.bind_eq_some_iff] at hrun
    obtain ⟨p₁, hstep, hrest⟩ := hrun
    exact endsInv_run es (s.endsInv_step h hstep) hrest

/-- **Exactly one end of stream.** However `Process` ends, if a target pod was
assigned then one call of `director.HandleResponseBody` was told that the
stream has ended, and it was the last. -/
theorem one_end_of_stream (accepts : Option Nat) (es : List (Event N)) (p : Process P N) (hconf : Conforming es)
    (hrun : run s.step (Process.init accepts) es = some p) (hret : p.returned.isSome)
    (hpod : p.reqCtx.targetPod.isSome) : p.calls.count true = 1 ∧ p.calls.getLast? = some true := by
  have h₀ : EndsInv es (Process.init accepts : Process P N) :=
    .inl ⟨rfl, .inl ⟨⟨rfl, fun b hb => absurd hb List.not_mem_nil⟩, hconf⟩⟩
  rcases s.endsInv_run es h₀ hrun with ⟨hnone, -⟩ | h
  · rw [hnone] at hret
    cases hret
  · exact ⟨(h.2 hpod).count, (h.2 hpod).getLast?⟩

end Server

def lostStream : List (Event Empty) :=
  [ .recv { request := .requestHeaders [] false } {}, .recv { request := .requestBody (str "hello") true } routeToA,
    .recv { request := .responseHeaders [eventStream] false } {}, .recv { request := .responseBody (str "a") false } {},
    .recvError .other ]

theorem one_end_of_stream_lost : ∃ p, run (passthrough [.sessionAffinity]).step (Process.init none) lostStream = some p ∧
    p.calls.count true = 1 ∧ p.calls.getLast? = some true := by
  have h : (run (passthrough [.sessionAffinity]).step (Process.init none) lostStream).any
      (fun p => p.returned.isSome && p.reqCtx.targetPod.isSome) = true := by decide +kernel
  obtain ⟨p, hp, hq⟩ := (Option.any_eq_true ..).mp h
  simp only [Bool.and_eq_true] at hq
  have hconf : Conforming lostStream := by
    unfold Conforming
    decide
  exact ⟨p, hp, Server.one_end_of_stream _ none lostStream p hconf hp hq.1 hq.2⟩

end InferenceScheduler.Handlers
