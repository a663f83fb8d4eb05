/-
What the parts of `Process` leave alone: the request side of the director does
not touch how far the answers have got (`RequestContext.progress`), a pass of
sending and the response hooks touch neither the target pod nor the mark that
the response is complete (`SameEnd`).
-/
import InferenceScheduler.Handlers.Process

namespace InferenceScheduler.Handlers

variable {P N : Type}

/-- How far the answers of a stream have got. -/
structure Progress where
  requestState : StreamRequestState
  modelServerStreaming : Bool
  responseComplete : Bool
  responseHeaders : Headers
  dynamicMetadata : Option Struct
  reqBodyResp : List ProcessingResponse
  reqTrailerResp : Option ProcessingResponse
  respHeaderResp : Option ProcessingResponse
  respBodyResp : List ProcessingResponse
  respTrailerResp : Option ProcessingResponse

def RequestContext.progress (r : RequestContext P N) : Progress where
  requestState := r.requestState
  modelServerStreaming := r.modelServerStreaming
  responseComplete := r.responseComplete
  responseHeaders := r.responseHeaders
  dynamicMetadata := r.dynamicMetadata
  reqBodyResp := r.reqBodyResp
  reqTrailerResp := r.reqTrailerResp
  respHeaderResp := r.respHeaderResp
  respBodyResp := r.respBodyResp
  respTrailerResp := r.respTrailerResp

/-- The context an outcome comes with, whether an error or not. -/
def outcome {E α : Type} : Except (α × E) α → α
  | .ok r => r
  | .error (r, _) => r

namespace Server

theorem foldl_readRequestHeader_eq : ∀ (headers : List HeaderValue) (r : RequestContext P N),
    ∃ hs fairness objective target, headers.foldl readRequestHeader r = { r with
      requestHeaders := hs, fairnessID := fairness, objectiveKey := objective, targetModelName := target }
  | [], r => ⟨_, _, _, _, rfl⟩
  | h :: headers, r => by
    have hr : ∃ hs fairness objective target, readRequestHeader r h = { r with
        requestHeaders := hs, fairnessID := fairness, objectiveKey := objective, targetModelName := target } := by
      simp only [readRequestHeader]
      split_ifs
      · exact ⟨_, _, _, _, rfl⟩
      · exact ⟨_, _, _, _, rfl⟩
      · exact ⟨_, _, _, _, rfl⟩
      · exact ⟨_, _, _, _, rfl⟩
    obtain ⟨hs, fairness, objective, target, hr⟩ := hr
    obtain ⟨hs', fairness', objective', target', hrest⟩ := foldl_readRequestHeader_eq headers (readRequestHeader r h)
    refine ⟨hs', fairness', objective', target', ?_⟩
    rw [List.foldl_cons, hrest, hr]

theorem handleRequestHeaders_eq (r : RequestContext P N) (headers : List HeaderValue) (d : Decisions) :
    ∃ hs fairness objective target, handleRequestHeaders r headers false d = .ok { r with
      requestHeaders := hs, fairnessID := fairness, objectiveKey := objective, targetModelName := target } := by
  obtain ⟨hs, fairness, objective, target, hr⟩ := foldl_readRequestHeader_eq headers r
  simp only [handleRequestHeaders, hr, Bool.false_eq_true, if_false]
  split_ifs
  · exact ⟨hs, defaultFairnessID, objective, target, rfl⟩
  · exact ⟨hs, fairness, objective, target, rfl⟩

theorem progress_handleRequestHeaders (r : RequestContext P N) (headers : List HeaderValue) (endOfStream : Bool)
    (d : Decisions) : (outcome (handleRequestHeaders r headers endOfStream d)).progress = r.progress := by
  cases endOfStream with
  | true =>
    simp only [handleRequestHeaders, if_true]
    split <;> rfl
  | false =>
    obtain ⟨hs, fairness, objective, target, hr⟩ := handleRequestHeaders_eq r headers d
    rw [hr]
    rfl

variable (s : Server P N)

theorem progress_modelRewriteIfNeeded (r : RequestContext P N) (body : InferenceRequestBody P) (d : Decisions) :
    match s.modelRewriteIfNeeded r body d with
    | .ok x => x.1.progress = r.progress
    | .error x => x.1.progress = r.progress := by
  rw [modelRewriteIfNeeded]
  cases body.payload with
  | payloadMap m =>
    simp only [mutateModel]
    cases s.model m <;> rfl
  | payloadProto | rawPayload | other => rfl

theorem progress_repackage (r : RequestContext P N) (body : InferenceRequestBody P) :
    (outcome (s.repackage r body)).progress = r.progress := by
  rw [repackage]
  cases body.payload with
  | payloadMap m =>
    dsimp only
    cases s.marshal m <;> rfl
  | payloadProto | rawPayload | other => rfl

theorem progress_prepareRequest (r : RequestContext P N) (result : Option SchedulingResult) (d : Decisions) :
    (outcome (prepareRequest r result d)).progress = r.progress := by
  cases result <;> rfl

theorem progress_admitAndSchedule (r : RequestContext P N) (body : InferenceRequestBody P) (d : Decisions) :
    (outcome (s.admitAndSchedule r body d)).progress = r.progress := by
  rw [admitAndSchedule]
  split
  · rfl
  split_ifs
  · rfl
  · rfl
  split
  · rfl
  next result _ =>
  have hp := progress_prepareRequest r result d
  split
  · next x hx =>
    rw [hx] at hp
    exact hp
  · next r' hx =>
    rw [hx] at hp
    exact (s.progress_repackage r' body).trans hp

theorem progress_handleRequest (r : RequestContext P N) (body : InferenceRequestBody P) (d : Decisions) :
    (outcome (s.handleRequest r body d)).progress = r.progress := by
  have h := s.progress_modelRewriteIfNeeded r body d
  rw [handleRequest]
  split
  · next x hx =>
    rw [hx] at h
    exact h
  · next r' body' hx =>
    rw [hx] at h
    exact (s.progress_admitAndSchedule _ body' d).trans h

theorem progress_of_handleRequest {r r' : RequestContext P N} {body : InferenceRequestBody P} {d : Decisions}
    (h : s.handleRequest r body d = .ok r') : r'.progress = r.progress :=
  (congrArg (fun x => (outcome x).progress) h).symm.trans (s.progress_handleRequest r body d)

end Server

/-! ## Sending and the response hooks -/

/-- Two contexts that agree on what the clean-up reads. -/
def SameEnd (r r' : RequestContext P N) : Prop :=
  r'.responseComplete = r.responseComplete ∧ r'.targetPod = r.targetPod

theorem sendStages_sameEnd {stage : Stage P N} (h : stage ∈ sendStages) {r r' : RequestContext P N}
    {ms : List ProcessingResponse} (hs : stage r = some (ms, r')) : SameEnd r r' := by
  simp only [sendStages, List.mem_cons, List.not_mem_nil, or_false] at h
  rcases h with rfl | rfl | rfl | rfl | rfl | rfl
  all_goals
    simp only [Option.ite_none_right_eq_some, Option.map_eq_some_iff, Prod.mk.injEq, Option.some.injEq] at hs
  · obtain ⟨-, m, -, -, rfl⟩ := hs
    exact ⟨rfl, rfl⟩
  · obtain ⟨-, -, rfl⟩ := hs
    exact ⟨rfl, rfl⟩
  · obtain ⟨-, m, -, -, rfl⟩ := hs
    exact ⟨rfl, rfl⟩
  · obtain ⟨-, m, -, -, rfl⟩ := hs
    exact ⟨rfl, rfl⟩
  · obtain ⟨-, -, rfl⟩ := hs
    exact ⟨rfl, rfl⟩
  · obtain ⟨-, m, -, -, rfl⟩ := hs
    exact ⟨rfl, rfl⟩

theorem runStages_sameEnd : ∀ (stages : List (Stage P N)), stages ⊆ sendStages → ∀ (r : RequestContext P N)
    (srv : Stream), SameEnd r (runStages stages r srv).2.1
  | [], _, _, _ => ⟨rfl, rfl⟩
  | stage :: stages, h, r, srv => by
    have hrest : stages ⊆ sendStages := fun x hx => h (List.mem_cons_of_mem _ hx)
    rw [runStages]
    split
    · exact runStages_sameEnd stages hrest r srv
    · next ms r' hs =>
      have h₁ := sendStages_sameEnd (h List.mem_cons_self) hs
      split
      · next srv' _ =>
        have h₂ := runStages_sameEnd stages hrest r' srv'
        exact ⟨h₂.1.trans h₁.1, h₂.2.trans h₁.2⟩
      · exact ⟨rfl, rfl⟩

theorem updateStateAndSendIfNeeded_sameEnd (r : RequestContext P N) (srv : Stream) :
    SameEnd r (updateStateAndSendIfNeeded r srv).2.1 := by
  rw [updateStateAndSendIfNeeded]
  split
  · exact ⟨rfl, rfl⟩
  · exact runStages_sameEnd _ (fun _ h => h) r srv

namespace Server

variable (s : Server P N)

theorem directorResponseBody_sameEnd (r : RequestContext P N) (endOfStream : Bool) :
    SameEnd r (s.directorResponseBody r endOfStream) := by
  rw [directorResponseBody]
  split
  · exact ⟨rfl, rfl⟩
  · dsimp only
    split <;> exact ⟨rfl, rfl⟩

theorem recordUsage_sameEnd (r : RequestContext P N) (bytes : Bytes) (endOfStream : Bool) :
    SameEnd r (s.recordUsage r bytes endOfStream) := by
  rw [recordUsage]
  split <;> exact ⟨rfl, rfl⟩

theorem finishResponse_stream (p : Process P N) (body : Bytes) (streaming setEos : Bool) :
    (s.finishResponse p body streaming setEos).srv = p.srv ∧
      (s.finishResponse p body streaming setEos).returned = p.returned := by
  rw [finishResponse]
  dsimp only
  split_ifs <;> exact ⟨rfl, rfl⟩

theorem handleRequestBody_stream (p : Process P N) (d : Decisions) :
    (s.handleRequestBody p d).1.srv = p.srv ∧ (s.handleRequestBody p d).1.returned = p.returned := by
  rw [handleRequestBody]
  dsimp only
  split
  · exact ⟨rfl, rfl⟩
  · split <;> exact ⟨rfl, rfl⟩

theorem handle_stream (p : Process P N) (req : ProcessingRequest N) (d : Decisions) :
    (s.handle p req d).1.srv = p.srv ∧ (s.handle p req d).1.returned = p.returned := by
  rw [handle]
  cases req.request with
  | requestHeaders headers endOfStream =>
    dsimp only
    split <;> exact ⟨rfl, rfl⟩
  | requestBody chunk endOfStream =>
    dsimp only
    split
    · exact s.handleRequestBody_stream _ d
    · exact ⟨rfl, rfl⟩
  | requestTrailers | responseHeaders headers endOfStream => exact ⟨rfl, rfl⟩
  | responseBody chunk endOfStream =>
    dsimp only
    split
    · exact ⟨rfl, rfl⟩
    · rw [bufferChunk]
      dsimp only
      split
      · exact s.finishResponse_stream _ _ _ _
      · exact ⟨rfl, rfl⟩
  | responseTrailers => exact s.finishResponse_stream _ _ _ _

end Server

end InferenceScheduler.Handlers
