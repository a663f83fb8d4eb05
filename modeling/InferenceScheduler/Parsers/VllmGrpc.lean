/-
The gRPC framing of the vLLM parser: a byte that says whether the message is
compressed, the length of the message in four bytes, the message.
`parseGrpcPayload` compares the length of its input with the length of the frame
in 32-bit arithmetic.
-/
import InferenceScheduler.Lib.Bytes
import InferenceScheduler.Lib.Panic
import Mathlib.Algebra.Group.Nat.Defs

namespace InferenceScheduler.VllmGrpc

def gRPCPayloadHeaderLen : Nat := 5

/-- The conversion `uint32(n)`, and what a sum of such numbers wraps to. -/
def uint32 (n : Nat) : Nat := n % 2 ^ 32

/-- `binary.BigEndian.Uint32`. -/
def bigEndianUint32 (b : Bytes) : Go String Nat := do
  let b3 ← index b 3
  let b2 ← index b 2
  let b1 ← index b 1
  let b0 ← index b 0
  return b3.val + b2.val * 2 ^ 8 + b1.val * 2 ^ 16 + b0.val * 2 ^ 24

/-- The message of a gRPC frame and whether it is compressed. -/
def parseGrpcPayload (data : Bytes) : Go String (Bytes × Bool) := do
  if data.length < gRPCPayloadHeaderLen then
    .error s!"invalid gRPC frame: expected at least {gRPCPayloadHeaderLen} bytes for header, got {data.length}"
  else
    let flag ← index data 0
    let isCompressed := flag == 1
    let header ← slice data 1 5
    let msgLen ← bigEndianUint32 header
    if uint32 data.length < uint32 (gRPCPayloadHeaderLen + msgLen) then
      let available := uint32 (uint32 data.length + 2 ^ 32 - gRPCPayloadHeaderLen)
      .error s!"incomplete gRPC payload: header indicates {msgLen} bytes, but only {available} bytes are available"
    else
      let payload ← slice data gRPCPayloadHeaderLen (uint32 (gRPCPayloadHeaderLen + msgLen))
      return (payload, isCompressed)

/-! ## What the function is for -/

/-- The number written in base 256, the most significant byte first. -/
def bigEndian (b : Bytes) : Nat := b.foldl (fun n d => n * 256 + d.val) 0

/-- The length a frame declares for its message. -/
def declaredLen (data : Bytes) : Nat := bigEndian ((data.drop 1).take 4)

/-- A returned message stands behind the header with its declared length, and a
refused input is shorter than its frame. -/
structure FrameSafe (data : Bytes) : Prop where
  returns : parseGrpcPayload data ≠ .panic
  framed : ∀ payload compressed, parseGrpcPayload data = .ok (payload, compressed) →
    ∃ header rest, data = header ++ payload ++ rest ∧ header.length = 5 ∧ payload.length = declaredLen data
  short : ∀ err, parseGrpcPayload data = .error err → data.length < 5 + declaredLen data

/-! ## The header -/

theorem bigEndian_lt (b : Bytes) : bigEndian b < 256 ^ b.length := by
  suffices h : ∀ n, b.foldl (fun n d => n * 256 + d.val) n < (n + 1) * 256 ^ b.length by
    simpa [bigEndian] using h 0
  induction b with
  | nil => simp
  | cons d b ih =>
    intro n
    calc b.foldl (fun n d => n * 256 + d.val) (n * 256 + d.val)
        < (n * 256 + d.val + 1) * 256 ^ b.length := ih _
      _ ≤ ((n + 1) * 256) * 256 ^ b.length := Nat.mul_le_mul_right _ (by omega)
      _ = (n + 1) * 256 ^ (b.length + 1) := by rw [Nat.pow_succ, Nat.mul_assoc, Nat.mul_comm 256]

theorem declaredLen_lt (data : Bytes) : declaredLen data < 2 ^ 32 := by
  refine Nat.lt_of_lt_of_le (bigEndian_lt _) ?_
  calc 256 ^ ((data.drop 1).take 4).length ≤ 256 ^ 4 := Nat.pow_le_pow_right (by omega) (by simp)
    _ = 2 ^ 32 := rfl

theorem bigEndianUint32_eq {b : Bytes} (h : b.length = 4) : bigEndianUint32 b = .ok (bigEndian b) := by
  obtain ⟨b0, b1, b2, b3, rfl⟩ : ∃ b0 b1 b2 b3, b = [b0, b1, b2, b3] := by
    match b, h with
    | [b0, b1, b2, b3], _ => exact ⟨b0, b1, b2, b3, rfl⟩
  simp [bigEndianUint32, index, bigEndian]
  omega

variable {data : Bytes}

/-- **What the function returns**, once its input has a header. -/
theorem parseGrpcPayload_eq (h : 5 ≤ data.length) : ∃ compressed err, parseGrpcPayload data =
      if uint32 data.length < uint32 (5 + declaredLen data) then .error err
      else (slice data 5 (uint32 (5 + declaredLen data)) >>= fun payload => .ok (payload, compressed)) := by
  have hslice : (slice data 1 5 : Go String Bytes) = .ok ((data.drop 1).take 4) := by
    rw [slice_eq_ok (by omega) h, List.drop_take]
  have hlen : bigEndianUint32 ((data.drop 1).take 4) = .ok (declaredLen data) :=
    bigEndianUint32_eq (by simp; omega)
  rw [parseGrpcPayload, if_neg (show ¬ data.length < gRPCPayloadHeaderLen from Nat.not_lt.2 h),
    index_eq_ok (by omega), Go.ok_bind, hslice, Go.ok_bind, hlen, Go.ok_bind]
  exact ⟨_, _, rfl⟩

/-! ## When it does what it is for -/

/-- The 32-bit comparison is that of the numbers; a whole frame ends below `2 ^ 32`. -/
def NoWrap (data : Bytes) : Prop :=
  (uint32 data.length < uint32 (5 + declaredLen data) ↔ data.length < 5 + declaredLen data) ∧
    (5 + declaredLen data ≤ data.length → 5 + declaredLen data < 2 ^ 32)

instance (data : Bytes) : Decidable (NoWrap data) := inferInstanceAs (Decidable (_ ∧ _))

theorem FrameSafe.of_short (h : data.length < 5) : FrameSafe data := by
  obtain ⟨err, herr⟩ : ∃ err, parseGrpcPayload data = .error err := by
    rw [parseGrpcPayload, if_pos (show data.length < gRPCPayloadHeaderLen from h)]
    exact ⟨_, rfl⟩
  refine ⟨by simp [herr], by simp [herr], fun _ _ => by omega⟩

theorem frameSafe_of_error {err : String} (h : parseGrpcPayload data = .error err) :
    FrameSafe data ↔ data.length < 5 + declaredLen data :=
  ⟨fun hs => hs.short err h, fun hl => ⟨by simp [h], by simp [h], fun _ _ => hl⟩⟩

theorem frameSafe_of_fits {compressed : Bool} (hfits : 5 + declaredLen data ≤ data.length)
    (h : parseGrpcPayload data = (slice data 5 (5 + declaredLen data) >>= fun payload => .ok (payload, compressed))) :
    FrameSafe data := by
  rw [slice_eq_ok (by omega) hfits, Go.ok_bind] at h
  refine ⟨by simp [h], fun payload c hok => ?_, by simp [h]⟩
  obtain ⟨rfl, -⟩ : (data.take (5 + declaredLen data)).drop 5 = payload ∧ compressed = c := by simpa [h] using hok
  refine ⟨data.take 5, data.drop (5 + declaredLen data), ?_, by simp; omega, by simp; omega⟩
  rw [List.drop_take, Nat.add_sub_cancel_left, ← List.drop_drop, List.append_assoc, List.take_append_drop,
    List.take_append_drop]

/-- **When gRPC frames are parsed safely**: an input without a header, or one
whose lengths do not wrap. -/
theorem frameSafe_iff (data : Bytes) : FrameSafe data ↔ data.length < 5 ∨ NoWrap data := by
  by_cases hshort : data.length < 5
  · exact ⟨fun _ => .inl hshort, fun _ => .of_short hshort⟩
  obtain ⟨compressed, err, heq⟩ := parseGrpcPayload_eq (Nat.not_lt.1 hshort)
  have hdecl := declaredLen_lt data
  simp only [hshort, false_or, NoWrap]
  by_cases hlt : uint32 data.length < uint32 (5 + declaredLen data)
  · -- refused: the second half of the condition says nothing then
    rw [if_pos hlt] at heq
    rw [frameSafe_of_error heq]
    simp only [hlt, true_iff]
    omega
  rw [if_neg hlt] at heq
  by_cases hwrap : 5 + declaredLen data < 2 ^ 32
  · have hend : uint32 (5 + declaredLen data) = 5 + declaredLen data := Nat.mod_eq_of_lt hwrap
    have hfits : 5 + declaredLen data ≤ data.length := by
      rw [hend] at hlt
      exact (Nat.not_lt.1 hlt).trans (Nat.mod_le _ _)
    rw [hend] at heq
    refine ⟨fun _ => ⟨?_, fun _ => hwrap⟩, fun _ => frameSafe_of_fits hfits heq⟩
    simp [hlt, hfits]
  · -- the end of the slice has wrapped to less than its beginning
    have hpanic : parseGrpcPayload data = .panic := by
      rw [heq, slice_eq_panic (by unfold uint32; omega), Go.panic_bind]
    refine ⟨fun hs => absurd hpanic hs.returns, fun hc => ?_⟩
    exact absurd (hc.2 (Nat.not_lt.1 fun hl => hlt (hc.1.2 hl))) hwrap

/-- A header that declares the largest length, with nothing behind it. -/
def largestLen : Bytes := [0, 255, 255, 255, 255]

theorem not_frameSafe_largestLen : parseGrpcPayload largestLen = .panic ∧ ¬ FrameSafe largestLen := by
  have hpanic : parseGrpcPayload largestLen = .panic := by decide
  exact ⟨hpanic, fun h => h.returns hpanic⟩

end InferenceScheduler.VllmGrpc
