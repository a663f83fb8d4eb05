/-
Cutting a body into the chunks that are sent to the proxy
(`BuildChunkedBodyResponses`).
-/
import InferenceScheduler.Lib.Bytes

namespace InferenceScheduler.Handlers

/-- `extProcPb.StreamedBodyResponse`. -/
structure StreamedBodyResponse where
  body : Bytes
  endOfStream : Bool
  deriving DecidableEq, Repr

def bodyByteLimit : Nat := 62000

/-- `rest` is the body from `startingIndex` on; the number bounds the rounds. -/
def chunkLoop (setEos : Bool) : Nat → Bytes → List StreamedBodyResponse
  | 0, _ => []
  | rounds + 1, rest =>
    if rest = [] then []
    else
      let len := min rest.length bodyByteLimit
      { body := rest.take len, endOfStream := setEos && rest.length ≤ len } ::
        chunkLoop setEos rounds (rest.drop len)

def buildChunkedBodyResponses (bodyBytes : Bytes) (setEos : Bool) : List StreamedBodyResponse :=
  if bodyBytes = [] then [{ body := bodyBytes, endOfStream := setEos }]
  else chunkLoop setEos bodyBytes.length bodyBytes

/-- What the bodies of a list of chunks add up to. -/
def joined (chunks : List StreamedBodyResponse) : Bytes := chunks.flatMap (·.body)

/-- Only the last chunk may end the stream, and does if `setEos` is set. -/
def EndsWith (setEos : Bool) (chunks : List StreamedBodyResponse) : Prop :=
  ∃ init last, chunks = init ++ [last] ∧ (∀ c ∈ init, c.endOfStream = false) ∧ last.endOfStream = setEos

@[simp] theorem joined_append (l l' : List StreamedBodyResponse) : joined (l ++ l') = joined l ++ joined l' :=
  List.flatMap_append

theorem EndsWith.cons {setEos : Bool} {chunks : List StreamedBodyResponse} {c : StreamedBodyResponse}
    (h : EndsWith setEos chunks) (hc : c.endOfStream = false) : EndsWith setEos (c :: chunks) := by
  obtain ⟨init, last, rfl, hinit, hlast⟩ := h
  refine ⟨c :: init, last, rfl, ?_, hlast⟩
  intro d hd
  rcases List.mem_cons.mp hd with rfl | hd
  · exact hc
  · exact hinit d hd

theorem EndsWith.append {setEos : Bool} {l l' : List StreamedBodyResponse} (h : EndsWith setEos l')
    (hl : ∀ c ∈ l, c.endOfStream = false) : EndsWith setEos (l ++ l') := by
  obtain ⟨init, last, rfl, hinit, hlast⟩ := h
  refine ⟨l ++ init, last, (List.append_assoc ..).symm, fun c hc => ?_, hlast⟩
  exact (List.mem_append.mp hc).elim (hl c) (hinit c)

theorem EndsWith.forall_false {l : List StreamedBodyResponse} (h : EndsWith false l) :
    ∀ c ∈ l, c.endOfStream = false := by
  obtain ⟨init, last, rfl, hinit, hlast⟩ := h
  intro c hc
  rcases List.mem_append.mp hc with hc | hc
  · exact hinit c hc
  · rw [List.mem_singleton.mp hc]
    exact hlast

theorem joined_chunkLoop (setEos : Bool) : ∀ (n : Nat) (rest : Bytes), rest.length ≤ n →
    joined (chunkLoop setEos n rest) = rest
  | 0, rest, h => by
    rw [List.eq_nil_of_length_eq_zero (Nat.le_zero.mp h)]
    rfl
  | n + 1, rest, h => by
    rw [chunkLoop]
    split_ifs with hr
    · rw [hr]
      rfl
    · have hpos : 0 < rest.length := List.length_pos_iff.mpr hr
      have hlen : (rest.drop (min rest.length bodyByteLimit)).length ≤ n := by
        simp only [List.length_drop, bodyByteLimit]
        omega
      show _ ++ joined (chunkLoop setEos n _) = rest
      rw [joined_chunkLoop setEos n _ hlen, List.take_append_drop]

theorem endsWith_chunkLoop (setEos : Bool) : ∀ (n : Nat) (rest : Bytes), rest.length ≤ n → rest ≠ [] →
    EndsWith setEos (chunkLoop setEos n rest)
  | 0, rest, h, hr => absurd (List.eq_nil_of_length_eq_zero (Nat.le_zero.mp h)) hr
  | n + 1, rest, h, hr => by
    have hpos : 0 < rest.length := List.length_pos_iff.mpr hr
    rw [chunkLoop, if_neg hr]
    by_cases hl : rest.length ≤ min rest.length bodyByteLimit
    · -- the last round: nothing is left
      have hnil : rest.drop (min rest.length bodyByteLimit) = [] := List.drop_eq_nil_of_le hl
      have hdone : chunkLoop setEos n [] = [] := by cases n <;> rfl
      show EndsWith setEos (_ :: chunkLoop setEos n (rest.drop (min rest.length bodyByteLimit)))
      rw [hnil, hdone]
      exact ⟨[], _, rfl, by simp, by simp [hl]⟩
    · refine EndsWith.cons (endsWith_chunkLoop setEos n _ ?_ ?_) (by simp [hl])
      · simp only [List.length_drop, bodyByteLimit]
        omega
      · intro hnil
        exact hl (List.drop_eq_nil_iff.mp hnil)

theorem joined_buildChunkedBodyResponses (body : Bytes) (setEos : Bool) :
    joined (buildChunkedBodyResponses body setEos) = body := by
  rw [buildChunkedBodyResponses]
  split_ifs with h
  · rw [h]
    rfl
  · exact joined_chunkLoop setEos _ body le_rfl

theorem endsWith_buildChunkedBodyResponses (body : Bytes) (setEos : Bool) :
    EndsWith setEos (buildChunkedBodyResponses body setEos) := by
  rw [buildChunkedBodyResponses]
  split_ifs with h
  · exact ⟨[], _, rfl, by simp, rfl⟩
  · exact endsWith_chunkLoop setEos _ body le_rfl h

theorem length_le_of_mem_chunkLoop {setEos : Bool} {c : StreamedBodyResponse} (n : Nat) :
    ∀ rest : Bytes, c ∈ chunkLoop setEos n rest → c.body.length ≤ bodyByteLimit := by
  induction n with
  | zero =>
    intro rest h
    cases h
  | succ n ih =>
    intro rest h
    rw [chunkLoop] at h
    split_ifs at h with hr
    · cases h
    · rcases List.mem_cons.mp h with rfl | h
      · rw [List.length_take]
        omega
      · exact ih _ h

/-- **Nothing is lost between the chunks.** A body is cut into at least one
chunk, none longer than the limit; together they are the body, and the last one
alone ends the stream, if it is to be ended. -/
theorem chunking_lossless (body : Bytes) (setEos : Bool) :
    buildChunkedBodyResponses body setEos ≠ [] ∧
      (∀ c ∈ buildChunkedBodyResponses body setEos, c.body.length ≤ bodyByteLimit) ∧
      joined (buildChunkedBodyResponses body setEos) = body ∧
      EndsWith setEos (buildChunkedBodyResponses body setEos) := by
  have hends := endsWith_buildChunkedBodyResponses body setEos
  refine ⟨?_, fun c hc => ?_, joined_buildChunkedBodyResponses body setEos, hends⟩
  · obtain ⟨init, last, heq, -⟩ := hends
    rw [heq]
    simp
  · rw [buildChunkedBodyResponses] at hc
    split_ifs at hc with h
    · rw [List.mem_singleton.mp hc, h]
      exact Nat.zero_le _
    · exact length_le_of_mem_chunkLoop _ _ hc

end InferenceScheduler.Handlers
