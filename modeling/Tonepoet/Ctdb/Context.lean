import Tonepoet.Ctdb.Parity
import Tonepoet.Rust

/-!
# The disc image and its syndrome context (tui/ctdb.rs:330-472)

An image is one stride of padding, the decoded payload, and one stride of padding. The parity covers
the middle rows of the payload; its first two strides and its tail go into the lead-in and lead-out
buffers of the context.
-/

namespace Ctdb

open Rust ShiftRegister

/-- `CUETOOLS_MAX_NPAR`. -/
def cuetoolsMaxNpar : ℕ := 16

structure CuetoolsDiscSpan where
  payloadStart : ℕ
  payloadLen : ℕ
  stridecount : ℕ
  laststride : ℕ

/-- `cuetools_disc_span` (ctdb.rs:356). -/
def cuetoolsDiscSpan (audio : List Int16) : Option CuetoolsDiscSpan := do
  if audio.length < (← checkedMul stride 2) then none
  else do
    -- the span is over the payload, not over the padding
    let payloadLen ← checkedSub audio.length (← checkedMul stride 2)
    let fullPayloadRows := payloadLen / stride
    let stridecount ← checkedSub fullPayloadRows 2
    let laststride ← checkedAdd stride (payloadLen % stride)
    some { payloadStart := stride, payloadLen, stridecount, laststride }

/-- `cuetools_payload_from_disc_image` (ctdb.rs:384). -/
def cuetoolsPayloadFromDiscImage (audio : List Int16) : Option (List Int16) := do
  let span ← cuetoolsDiscSpan audio
  slice audio span.payloadStart (← checkedAdd span.payloadStart span.payloadLen)

/-- `cuetools_middle_span_image_for_parity` (ctdb.rs:399). -/
def cuetoolsMiddleSpanImageForParity (audio : List Int16) : Option (List Int16) := do
  let span ← cuetoolsDiscSpan audio
  let payload ← slice audio span.payloadStart (← checkedAdd span.payloadStart span.payloadLen)
  let protectedLen ← checkedMul span.stridecount stride
  let protectedEnd ← checkedAdd stride protectedLen
  let middle ← slice payload stride protectedEnd
  -- the capacity of the new image
  let _ ← checkedAdd (← checkedAdd stride middle.length) stride
  some (List.replicate stride 0 ++ middle ++ List.replicate stride 0)

structure CuetoolsSyndromeContext where
  stride : ℕ
  stridecount : ℕ
  laststride : ℕ
  leadin : List UInt16
  leadout : List UInt16

/-- The lead-in loop: the first words of the payload over zeros. -/
def leadinWords (payload : List Int16) (n : ℕ) : List UInt16 :=
  (List.replicate n (0 : UInt16)).mapIdx fun i dst =>
    match payload[i]? with
    | some src => src.toUInt16
    | none => dst

/-- The lead-out loop: the last words of the payload, in reverse order. -/
def leadoutWords (payload : List Int16) (n : ℕ) : List UInt16 :=
  (List.replicate n (0 : UInt16)).mapIdx fun dstIndex dst =>
    match checkedSub payload.length (1 + dstIndex) with
    | some srcIndex => (payload.getD srcIndex 0).toUInt16
    | none => dst

/-- `cuetools_build_syndrome_context` (ctdb.rs:444). -/
def cuetoolsBuildSyndromeContext (audio : List Int16) : Option CuetoolsSyndromeContext := do
  let span ← cuetoolsDiscSpan audio
  let payload ← cuetoolsPayloadFromDiscImage audio
  let leadinLen ← checkedMul stride 2
  let leadoutLen ← checkedAdd stride span.laststride
  some ⟨stride, span.stridecount, span.laststride, leadinWords payload leadinLen, leadoutWords payload leadoutLen⟩

/-- `compute_audio_parity16` (ctdb.rs:330). -/
def computeAudioParity16 (audio : List Int16) : Option (List (List UInt16)) := do
  let gf := Galois16.new
  let middleImage ← cuetoolsMiddleSpanImageForParity audio
  (computeParityMatrixFromAudio gf middleImage cuetoolsMaxNpar).toOption

/-! ## What the context of an image holds -/

theorem getD_window {xs : List Int16} {lo n k : ℕ} (hk : k < n) : ((xs.drop lo).take n).getD k 0 = xs.getD (lo + k) 0 := by
  rw [List.getD_eq_getElem?_getD, List.getElem?_take_of_lt hk, List.getElem?_drop, ← List.getD_eq_getElem?_getD]

theorem getD_padded {xs : List Int16} {n k : ℕ} (hk : k < xs.length) :
    (List.replicate n 0 ++ xs ++ List.replicate n 0).getD (n + k) 0 = xs.getD k 0 := by
  have hlt : n + k < (List.replicate n (0 : Int16) ++ xs).length := by
    rw [List.length_append, List.length_replicate]
    omega
  rw [List.getD_eq_getElem?_getD, List.getElem?_append_left hlt,
    List.getElem?_append_right (by rw [List.length_replicate]; omega), List.length_replicate, Nat.add_sub_cancel_left,
    ← List.getD_eq_getElem?_getD]

theorem getElem?_leadinWords {payload : List Int16} {n k : ℕ} (hk : k < n) (hlen : k < payload.length) :
    (leadinWords payload n)[k]? = some (payload.getD k 0).toUInt16 := by
  rw [leadinWords, List.getElem?_mapIdx, List.getElem?_replicate, if_pos hk, Option.map_some, getElem?_getD 0 hlen]

theorem getElem?_leadoutWords {payload : List Int16} {n k : ℕ} (hk : k < n) (hlen : 1 + k ≤ payload.length) :
    (leadoutWords payload n)[k]? = some (payload.getD (payload.length - (1 + k)) 0).toUInt16 := by
  rw [leadoutWords, List.getElem?_mapIdx, List.getElem?_replicate, if_pos hk, Option.map_some, checkedSub_of_le hlen]

/-- Word `k` of the payload of an image. -/
def payloadWord (audio : List Int16) (k : ℕ) : UInt16 := (audio.getD (stride + k) 0).toUInt16

def payloadLen (audio : List Int16) : ℕ := audio.length - stride * 2

/-- The number of protected rows. -/
def rowCount (audio : List Int16) : ℕ := payloadLen audio / stride - 2

/-- The image of a decoded payload. -/
def discImage (payload : List Int16) : List Int16 := List.replicate stride 0 ++ payload ++ List.replicate stride 0

/-- An image that has a span: the payload is at least two strides, and a slice's length is a `usize`. -/
structure Spans (audio : List Int16) : Prop where
  payload : stride * 2 ≤ payloadLen audio
  fits : audio.length ≤ usizeMax

variable {audio : List Int16}

theorem Spans.length (h : Spans audio) : audio.length = stride + payloadLen audio + stride := by
  have hp : stride * 2 ≤ audio.length - stride * 2 := h.payload
  have := stride_pos
  rw [payloadLen]
  omega

theorem length_discImage (payload : List Int16) : (discImage payload).length = stride + payload.length + stride := by
  rw [discImage, List.length_append, List.length_append, List.length_replicate]

@[simp] theorem payloadLen_discImage (payload : List Int16) : payloadLen (discImage payload) = payload.length := by
  rw [payloadLen, length_discImage]
  omega

theorem payloadWord_discImage {payload : List Int16} {k : ℕ} (hk : k < payload.length) :
    payloadWord (discImage payload) k = (payload.getD k 0).toUInt16 := by rw [payloadWord, discImage, getD_padded hk]

theorem spans_discImage {payload : List Int16} (hlen : 2 * stride ≤ payload.length)
    (hfits : 2 * stride + payload.length ≤ usizeMax) : Spans (discImage payload) := by
  refine ⟨?_, ?_⟩
  · rw [payloadLen_discImage]
    omega
  · rw [length_discImage]
    omega

theorem Spans.two_le_rows (h : Spans audio) : 2 ≤ payloadLen audio / stride :=
  (Nat.le_div_iff_mul_le stride_pos).2 (by rw [mul_comm]; exact h.payload)

theorem Spans.payloadLen_eq (h : Spans audio) :
    payloadLen audio = rowCount audio * stride + stride * 2 + payloadLen audio % stride := by
  have hdiv := Nat.div_add_mod' (payloadLen audio) stride
  have hrows : payloadLen audio / stride = rowCount audio + 2 := (Nat.sub_add_cancel h.two_le_rows).symm
  rw [hrows, add_mul] at hdiv
  omega

theorem Spans.discSpan (h : Spans audio) :
    cuetoolsDiscSpan audio = some ⟨stride, payloadLen audio, rowCount audio, stride + payloadLen audio % stride⟩ := by
  have hlen := h.length
  have hfits := h.fits
  have hmod := Nat.mod_lt (payloadLen audio) stride_pos
  have hp := h.payload
  have hsub : checkedSub audio.length (stride * 2) = some (payloadLen audio) := checkedSub_of_le (by omega)
  rw [cuetoolsDiscSpan, checkedMul_of_le (by omega)]
  simp only [Option.bind_eq_bind, Option.bind_some]
  rw [if_neg (by omega), hsub, Option.bind_some, checkedSub_of_le h.two_le_rows, Option.bind_some,
    checkedAdd_of_le (by omega)]
  rfl

/-- The payload as a list. -/
theorem Spans.slice_payload (h : Spans audio) :
    slice audio stride (stride + payloadLen audio) = some ((audio.drop stride).take (payloadLen audio)) := by
  have hlen := h.length
  rw [slice_of_le (by omega) (by omega), Nat.add_sub_cancel_left]

theorem length_payload (h : Spans audio) : ((audio.drop stride).take (payloadLen audio)).length = payloadLen audio := by
  have hlen := h.length
  rw [List.length_take, List.length_drop]
  omega

theorem Spans.payloadFromDiscImage (h : Spans audio) :
    cuetoolsPayloadFromDiscImage audio = some ((audio.drop stride).take (payloadLen audio)) := by
  have hlen := h.length
  have hfits := h.fits
  rw [cuetoolsPayloadFromDiscImage, h.discSpan, Option.bind_eq_bind, Option.bind_some,
    checkedAdd_of_le (by simp only; omega), Option.bind_eq_bind, Option.bind_some, h.slice_payload]

/-- An image with a context has a span. -/
theorem spans_of_context (hfits : audio.length ≤ usizeMax) {ctx : CuetoolsSyndromeContext}
    (h : cuetoolsBuildSyndromeContext audio = some ctx) : Spans audio := by
  refine ⟨?_, hfits⟩
  obtain ⟨span, hspan, -⟩ := Option.bind_eq_some_iff.1 h
  obtain ⟨twice, htwice, hrest⟩ := Option.bind_eq_some_iff.1 hspan
  obtain rfl : stride * 2 = twice := by
    rw [checkedMul] at htwice
    split at htwice
    · exact Option.some.inj htwice
    · cases htwice
  by_cases hlt : audio.length < stride * 2
  · rw [if_pos hlt] at hrest
    cases hrest
  · rw [if_neg hlt, htwice, Option.bind_eq_bind, Option.bind_some, checkedSub_of_le (by omega), Option.bind_some] at hrest
    obtain ⟨n, hn, -⟩ := Option.bind_eq_some_iff.1 hrest
    rw [checkedSub] at hn
    split at hn
    · next hle =>
      rw [mul_comm]
      exact (Nat.le_div_iff_mul_le stride_pos).1 hle
    · cases hn

/-- **The context of an image**: its lead-in is the start of the payload, its lead-out the end, backwards. -/
theorem Spans.buildSyndromeContext (h : Spans audio) : ∃ ctx, cuetoolsBuildSyndromeContext audio = some ctx ∧
    ctx.stride = stride ∧ ctx.stridecount = rowCount audio ∧ ctx.laststride = stride + payloadLen audio % stride ∧
    (∀ k < stride * 2, ctx.leadin[k]? = some (payloadWord audio k)) ∧
    ∀ k < stride + (stride + payloadLen audio % stride), ctx.leadout[k]? = some (payloadWord audio (payloadLen audio - (1 + k))) := by
  have hlen := h.length
  have hfits := h.fits
  have hp := h.payload
  have hpl := h.payloadLen_eq
  refine ⟨⟨stride, rowCount audio, stride + payloadLen audio % stride,
    leadinWords ((audio.drop stride).take (payloadLen audio)) (stride * 2),
    leadoutWords ((audio.drop stride).take (payloadLen audio)) (stride + (stride + payloadLen audio % stride))⟩,
    ?_, rfl, rfl, rfl, ?_, ?_⟩
  · rw [cuetoolsBuildSyndromeContext, h.discSpan]
    simp only [Option.bind_eq_bind, Option.bind_some]
    rw [h.payloadFromDiscImage, Option.bind_some, checkedMul_of_le (by omega), Option.bind_some,
      checkedAdd_of_le (by omega), Option.bind_some]
  · intro k hk
    rw [getElem?_leadinWords hk (by rw [length_payload h]; omega), getD_window (by omega), payloadWord]
  · intro k hk
    rw [getElem?_leadoutWords hk (by rw [length_payload h]; omega), length_payload h, getD_window (by omega), payloadWord]

/-- The image the parity is computed over: its row `r` is row `r + 1` of the payload. -/
theorem Spans.middleSpanImage (h : Spans audio) : ∃ image, cuetoolsMiddleSpanImageForParity audio = some image ∧
    image.length = (rowCount audio + 2) * stride ∧ ∀ row < rowCount audio, ∀ col < stride,
      (image.getD (stride + row * stride + col) 0).toUInt16 = payloadWord audio (stride + row * stride + col) := by
  have hlen := h.length
  have hfits := h.fits
  have hp := h.payload
  have hpl := h.payloadLen_eq
  have hmiddle : slice ((audio.drop stride).take (payloadLen audio)) stride (stride + rowCount audio * stride) =
      some ((((audio.drop stride).take (payloadLen audio)).drop stride).take (rowCount audio * stride)) := by
    rw [slice_of_le (by omega) (by rw [length_payload h]; omega), Nat.add_sub_cancel_left]
  have hmlen : ((((audio.drop stride).take (payloadLen audio)).drop stride).take (rowCount audio * stride)).length =
      rowCount audio * stride := by
    rw [List.length_take, List.length_drop, length_payload h]
    omega
  refine ⟨List.replicate stride 0 ++ (((audio.drop stride).take (payloadLen audio)).drop stride).take
    (rowCount audio * stride) ++ List.replicate stride 0, ?_, ?_, ?_⟩
  · rw [cuetoolsMiddleSpanImageForParity, h.discSpan, some_bind, checkedAdd_of_le (by simp only; omega), some_bind,
      h.slice_payload, some_bind, checkedMul_of_le (by simp only; omega), some_bind, checkedAdd_of_le (by simp only; omega),
      some_bind, hmiddle, some_bind, checkedAdd_of_le (by omega), some_bind, checkedAdd_of_le (by omega), some_bind]
  · rw [List.length_append, List.length_append, hmlen, List.length_replicate, add_mul]
    omega
  · intro row hrow col hcol
    have hbound : row * stride + col < rowCount audio * stride := by
      have := Nat.mul_le_mul_right stride hrow
      rw [Nat.succ_mul] at this
      omega
    rw [Nat.add_assoc, getD_padded (by rw [hmlen]; exact hbound), getD_window hbound, getD_window (by omega), payloadWord]

theorem validateNpar_max : validateNpar cuetoolsMaxNpar = .ok () := by decide

/-- **The parity of an image** at the roots of the generator. -/
theorem Spans.audioParity16 (h : Spans audio) : ∃ parity16, computeAudioParity16 audio = some parity16 ∧
    parity16.length = stride ∧ ∀ col < stride, ∃ wr, parity16[col]? = some wr ∧ wr.length = cuetoolsMaxNpar ∧
      ∀ x < cuetoolsMaxNpar, value (alpha ^ x) (wr.map toGF) = (alpha ^ x) ^ cuetoolsMaxNpar *
        horner (alpha ^ x) (fun row => toGF (payloadWord audio (stride + row * stride + col))) (rowCount audio) := by
  obtain ⟨image, himage, hlen, hword⟩ := h.middleSpanImage
  have hrows : image.length / stride - 2 = rowCount audio := by
    rw [hlen, Nat.mul_div_cancel _ stride_pos, Nat.add_sub_cancel]
  obtain ⟨parity, hparity, hplen, hcol⟩ := computeParityMatrixFromAudio_ok Galois16.new validateNpar_max
    image (by rw [hlen, add_mul]; omega)
  refine ⟨parity, ?_, hplen, ?_⟩
  · rw [computeAudioParity16, himage, Option.bind_eq_bind, Option.bind_some, hparity]
    rfl
  · intro col hc
    obtain ⟨wr, hwr, hwlen, hval⟩ := hcol col hc
    refine ⟨wr, hwr, hwlen, fun x hx => ?_⟩
    rw [hval x hx, hrows, horner_congr fun row hrow => by rw [hword row hrow col hc]]

end Ctdb
