/-
The rewrite of the model name in a response body that arrives in chunks
(`rewriteModelName` of `handlers/server.go`). Each chunk is rewritten by itself,
so a model field that is cut in two is not seen; and the form with a space after
the colon is looked for only where the form without it does not occur.
-/
import InferenceScheduler.Handlers.Process
import Mathlib.Algebra.Order.BigOperators.Group.List
import Mathlib.Algebra.Order.Group.Nat

namespace InferenceScheduler.Handlers

/-- The chunks of a body, each rewritten. -/
def rewriteChunks (chunks : List Bytes) (targetModel incomingModel : Bytes) : Bytes :=
  (chunks.map fun chunk => rewriteModelName chunk targetModel incomingModel).flatten

/-- There is nothing to rewrite. -/
def SameName (targetModel incomingModel : Bytes) : Prop :=
  targetModel = [] ∨ incomingModel = [] ∨ targetModel = incomingModel

/-- No occurrence of the model field crosses from a chunk to a later one. -/
def Uncut (gap : String) (targetModel : Bytes) (chunks : List Bytes) : Prop :=
  ∀ i, ¬ Straddles (modelField gap targetModel) (chunks.take i).flatten (chunks.drop i).flatten

/-- The model field of the form that counts in the whole body is not cut. -/
structure FieldsWhole (targetModel : Bytes) (chunks : List Bytes) : Prop where
  uncut : Uncut "" targetModel chunks
  spaced : ¬ modelField "" targetModel <:+: chunks.flatten → Uncut " " targetModel chunks

/-- The form without a space does not occur, or wherever the other one does. -/
def FormsAgree (targetModel : Bytes) (chunks : List Bytes) : Prop :=
  ¬ modelField "" targetModel <:+: chunks.flatten ∨
    ∀ chunk ∈ chunks, modelField " " targetModel <:+: chunk → modelField "" targetModel <:+: chunk

variable {incomingModel targetModel : Bytes}

theorem rewriteModelName_of_sameName (h : SameName targetModel incomingModel)
    (body : Bytes) : rewriteModelName body targetModel incomingModel = body :=
  if_pos h

theorem length_modelField (gap : String) (name : Bytes) :
    (modelField gap name).length = 10 + (str gap).length + name.length := by
  simp only [modelField, List.length_append]
  have h₁ : (str "\"model\":").length = 8 := by decide
  have h₂ : (str "\"").length = 1 := by decide
  omega

theorem modelField_ne_nil (gap : String) (name : Bytes) : modelField gap name ≠ [] := fun h => by
  have := length_modelField gap name
  rw [h, List.length_nil] at this
  omega

theorem modelField_inj {gap : String} {a b : Bytes} (h : modelField gap a = modelField gap b) : a = b := by
  simpa [modelField] using h

section Names

variable (hname : ¬ SameName targetModel incomingModel)

include hname

theorem modelField_ne (gap : String) : modelField gap targetModel ≠ modelField gap incomingModel :=
  fun h => hname (.inr (.inr (modelField_inj h)))

/-- The form without a space is replaced where it occurs, and the other one elsewhere. -/
theorem rewriteModelName_eq (body : Bytes) :
    (modelField "" targetModel <:+: body → rewriteModelName body targetModel incomingModel =
      replaceAll (modelField "" targetModel) (modelField "" incomingModel) body) ∧
    (¬ modelField "" targetModel <:+: body → rewriteModelName body targetModel incomingModel =
      replaceAll (modelField " " targetModel) (modelField " " incomingModel) body) := by
  have hif : ¬ (targetModel = [] ∨ incomingModel = [] ∨ targetModel = incomingModel) := hname
  unfold rewriteModelName
  rw [if_neg hif]
  refine ⟨fun h => ?_, fun h => ?_⟩
  · exact if_pos fun hsame => replaceAll_eq_self (modelField_ne_nil _ _) (modelField_ne hname "") hsame h
  · simp [replaceAll_of_absent h]

/-- What a chunk is if only the form without a space is replaced. -/
theorem rewriteModelName_cases (chunk : Bytes) :
    rewriteModelName chunk targetModel incomingModel =
        replaceAll (modelField "" targetModel) (modelField "" incomingModel) chunk ∨
      rewriteModelName chunk targetModel incomingModel =
          replaceAll (modelField " " targetModel) (modelField " " incomingModel) chunk ∧
        replaceAll (modelField "" targetModel) (modelField "" incomingModel) chunk = chunk := by
  by_cases h : modelField "" targetModel <:+: chunk
  · exact .inl ((rewriteModelName_eq hname chunk).1 h)
  · exact .inr ⟨(rewriteModelName_eq hname chunk).2 h, replaceAll_of_absent h⟩

omit hname in
/-- Two flattened lists of which no piece is longer in the second. -/
theorem eq_of_flatten_map_eq {f g : Bytes → Bytes} : ∀ {chunks : List Bytes},
    (∀ chunk ∈ chunks, (f chunk).length ≤ (g chunk).length) → (chunks.map f).flatten = (chunks.map g).flatten →
    ∀ chunk ∈ chunks, f chunk = g chunk
  | [], _, _ => nofun
  | chunk :: chunks, hle, heq => by
    obtain ⟨hfirst, hrest⟩ := List.forall_mem_cons.mp hle
    have htail : ((chunks.map f).flatten).length ≤ ((chunks.map g).flatten).length := by
      rw [List.length_flatten, List.length_flatten, List.map_map, List.map_map]
      exact List.sum_le_sum hrest
    simp only [List.map_cons, List.flatten_cons] at heq
    have hlen := congrArg List.length heq
    rw [List.length_append, List.length_append] at hlen
    obtain ⟨hhead, heq⟩ := List.append_inj heq (by omega)
    exact List.forall_mem_cons.mpr ⟨hhead, eq_of_flatten_map_eq hrest heq⟩

/-- **Chunks that are whole** are rewritten as the body is, exactly if the forms agree. -/
theorem rewriteChunks_iff {chunks : List Bytes} (h : FieldsWhole targetModel chunks) :
    rewriteChunks chunks targetModel incomingModel = rewriteModelName chunks.flatten targetModel incomingModel ↔
      FormsAgree targetModel chunks := by
  by_cases hform : modelField "" targetModel <:+: chunks.flatten
  · rw [(rewriteModelName_eq hname _).1 hform, replaceAll_flatten h.uncut, rewriteChunks, FormsAgree,
      or_iff_right (not_not.mpr hform)]
    constructor
    · intro heq chunk hchunk hspaced
      -- the other form makes all its chunks longer, or all shorter, or keeps their length
      have hsame : ∀ chunk ∈ chunks, rewriteModelName chunk targetModel incomingModel =
          replaceAll (modelField "" targetModel) (modelField "" incomingModel) chunk := by
        have hlen := fun gap => length_modelField gap targetModel
        have hlen' := fun gap => length_modelField gap incomingModel
        rcases Nat.le_total incomingModel.length targetModel.length with hle | hle
        · refine eq_of_flatten_map_eq (fun chunk _ => ?_) heq
          rcases rewriteModelName_cases hname chunk with heq | ⟨heq, heq'⟩
          · rw [heq]
          · rw [heq, heq']
            exact length_replaceAll_le (modelField_ne_nil _ _) (by rw [hlen, hlen']; omega) chunk
        · refine fun chunk hchunk => (eq_of_flatten_map_eq (fun chunk _ => ?_) heq.symm chunk hchunk).symm
          rcases rewriteModelName_cases hname chunk with heq | ⟨heq, heq'⟩
          · rw [heq]
          · rw [heq, heq']
            exact le_length_replaceAll (modelField_ne_nil _ _) (by rw [hlen, hlen']; omega) chunk
      by_contra habsent
      have heq := hsame chunk hchunk
      rw [(rewriteModelName_eq hname chunk).2 habsent, replaceAll_of_absent habsent] at heq
      exact replaceAll_eq_self (modelField_ne_nil _ _) (modelField_ne hname " ") heq hspaced
    · intro hagree
      congr 1
      refine List.map_congr_left fun chunk hchunk => ?_
      by_cases hin : modelField "" targetModel <:+: chunk
      · exact (rewriteModelName_eq hname chunk).1 hin
      · rw [(rewriteModelName_eq hname chunk).2 hin, replaceAll_of_absent fun hs => hin (hagree chunk hchunk hs),
          replaceAll_of_absent hin]
  · refine iff_of_true ?_ (.inl hform)
    rw [(rewriteModelName_eq hname _).2 hform, replaceAll_flatten (h.spaced hform), rewriteChunks]
    congr 1
    refine List.map_congr_left fun chunk hchunk => (rewriteModelName_eq hname chunk).2 fun hi => hform ?_
    exact hi.trans (List.infix_of_mem_flatten hchunk)

/-- A body that is one model field, cut after its first byte, stays as it is. -/
theorem rewriteChunks_cut :
    rewriteChunks [(modelField "" targetModel).take 1, (modelField "" targetModel).drop 1] targetModel incomingModel ≠
      rewriteModelName (modelField "" targetModel) targetModel incomingModel := by
  have hlen := length_modelField "" targetModel
  have hshort : ∀ {body : Bytes}, body.length < (modelField "" targetModel).length →
      rewriteModelName body targetModel incomingModel = body := by
    intro body hb
    have h : ∀ gap, ¬ modelField gap targetModel <:+: body := fun gap hi => by
      have := hi.length_le
      have := length_modelField gap targetModel
      have h₀ : (str "").length = 0 := by decide
      omega
    rw [(rewriteModelName_eq hname body).2 (h ""), replaceAll_of_absent (h " ")]
  rw [(rewriteModelName_eq hname _).1 (List.infix_refl _), replaceAll_self (modelField_ne_nil _ _)]
  simp only [rewriteChunks, List.map_cons, List.map_nil, List.flatten_cons, List.flatten_nil, List.append_nil]
  rw [hshort (by simp only [List.length_take]; omega), hshort (by simp only [List.length_drop]; omega),
    List.take_append_drop]
  exact modelField_ne hname ""

end Names

/-- **The rewrite does not commute with cutting.** For two model names, every
body may be cut anywhere exactly if there is nothing to rewrite; and chunks whose
model fields are whole are rewritten as the whole body is exactly if there is
nothing to rewrite or their forms agree. -/
theorem rewriteModelName_split_iff (targetModel incomingModel : Bytes) :
    ((∀ chunks, rewriteChunks chunks targetModel incomingModel =
        rewriteModelName chunks.flatten targetModel incomingModel) ↔ SameName targetModel incomingModel) ∧
      ∀ chunks, FieldsWhole targetModel chunks →
        (rewriteChunks chunks targetModel incomingModel = rewriteModelName chunks.flatten targetModel incomingModel ↔
          SameName targetModel incomingModel ∨ FormsAgree targetModel chunks) := by
  have htrivial : SameName targetModel incomingModel → ∀ chunks, rewriteChunks chunks targetModel incomingModel =
      rewriteModelName chunks.flatten targetModel incomingModel := fun h chunks => by
    simp [rewriteChunks, rewriteModelName_of_sameName h]
  refine ⟨⟨fun h => ?_, htrivial⟩, fun chunks hwhole => ?_⟩
  · by_contra hname
    have hcut := h [(modelField "" targetModel).take 1, (modelField "" targetModel).drop 1]
    rw [List.flatten_cons, List.flatten_cons, List.flatten_nil, List.append_nil, List.take_append_drop] at hcut
    exact rewriteChunks_cut hname hcut
  · by_cases hname : SameName targetModel incomingModel
    · exact iff_of_true (htrivial hname chunks) (.inl hname)
    · rw [or_iff_right hname]
      exact rewriteChunks_iff hname hwhole

/-- A cut inside the name, and two chunks with one form each. -/
theorem cut_field_not_rewritten :
    rewriteChunks [str "\"model\":\"lo", str "ra\""] (str "lora") (str "base") = str "\"model\":\"lora\"" ∧
      rewriteModelName (str "\"model\":\"lora\"") (str "lora") (str "base") = str "\"model\":\"base\"" ∧
      rewriteChunks [str "\"model\":\"lora\"", str "\"model\": \"lora\""] (str "lora") (str "base") ≠
        rewriteModelName (str "\"model\":\"lora\"\"model\": \"lora\"") (str "lora") (str "base") := by
  decide +kernel

end InferenceScheduler.Handlers
