import Tonepoet.Wave64.Validator

/-!
# The chunks of a Wave64 file

The traversal goes over a file that is laid out as chunks, each padded with zeros to a multiple of eight bytes, and over
no other; what it has seen at the end is what the chunks show one after the other.
-/

namespace Wave64

open Rust ByteFile

structure Chunk where
  guid : List UInt8
  payload : List UInt8
  guidLength : guid.length = 16

/-- A chunk in the file; its size counts the header. -/
def Chunk.bytes (c : Chunk) : List UInt8 := c.guid ++ (leBytes 8 (chunkHeaderBytes + c.payload.length) ++ c.payload)

/-- The zeros up to the next chunk. -/
def Chunk.padding (c : Chunk) : List UInt8 := List.replicate ((8 - c.payload.length % 8) % 8) 0

@[simp] theorem Chunk.length_bytes (c : Chunk) : c.bytes.length = 24 + c.payload.length := by
  rw [Chunk.bytes, List.length_append, List.length_append, c.guidLength, length_leBytes]
  omega

@[simp] theorem Chunk.length_padding (c : Chunk) : c.padding.length = (8 - c.payload.length % 8) % 8 := List.length_replicate

theorem allZero_iff {bytes : List UInt8} : allZero bytes = true ↔ bytes = List.replicate bytes.length 0 := by
  rw [allZero, List.all_eq_true, List.eq_replicate_iff]
  simp

theorem allZero_append {a b : List UInt8} : allZero (a ++ b) = true ↔ allZero a = true ∧ allZero b = true := by
  rw [allZero, List.all_append, Bool.and_eq_true]
  rfl

theorem Chunk.allZero_padding (c : Chunk) : allZero c.padding = true :=
  allZero_iff.2 (by rw [Chunk.length_padding, Chunk.padding])

/-- The size of a chunk is not zero. -/
theorem Chunk.not_allZero_bytes (c : Chunk) (hlength : c.bytes.length < 2 ^ 64) : ¬ allZero c.bytes = true := by
  intro h
  rw [Chunk.bytes, allZero_append, allZero_append] at h
  have hsize : ofLe (leBytes 8 (chunkHeaderBytes + c.payload.length)) = chunkHeaderBytes + c.payload.length := by
    refine ofLe_leBytes ?_
    rw [c.length_bytes] at hlength
    rw [chunkHeaderBytes]
    omega
  rw [allZero_iff.1 h.2.1, length_leBytes] at hsize
  simp only [ofLe, List.replicate, chunkHeaderBytes, UInt8.toNat_zero] at hsize
  omega

/-- Bytes laid out as chunks from an aligned offset. The last chunk may do without its padding; with `ssrc` it may also be a data
chunk with zeros of any length behind it. -/
inductive Laid (ssrc : Bool) : List Chunk → List UInt8 → Prop where
  | nil : Laid ssrc [] []
  | last (c : Chunk) : Laid ssrc [c] c.bytes
  | tail (c : Chunk) {zeros : List UInt8} (hssrc : ssrc = true) (hdata : c.guid = w64DataGuid) (hzeros : allZero zeros = true) :
      Laid ssrc [c] (c.bytes ++ zeros)
  | cons (c : Chunk) {chunks : List Chunk} {rest : List UInt8} (h : Laid ssrc chunks rest) :
      Laid ssrc (c :: chunks) (c.bytes ++ (c.padding ++ rest))

/-! ## What a chunk shows -/

/-- `parse_format` of a payload. -/
def parsePayload (payload : List UInt8) : Except W64ValidationError ParsedFormat := do
  let payloadBytes := payload.length
  require (16 ≤ payloadBytes) s!"format chunk payload is {payloadBytes} bytes; at least 16 are required"
  parseFormatBytes (payload.take 40) payloadBytes

/-- A chunk at an offset, added to what has been seen. -/
inductive Notes (c : Chunk) (offset : ℕ) (seen : Seen) : Seen → Prop where
  | format {format : ParsedFormat} (hguid : c.guid = w64FmtGuid) (hnew : seen.format = none) (hparse : parsePayload c.payload = .ok format) :
      Notes c offset seen { seen with chunkCount := seen.chunkCount + 1, format := some (offset, format) }
  | fact (hguid : c.guid = w64FactGuid) (hnew : seen.fact = none) (hlength : c.payload.length = 8) :
      Notes c offset seen { seen with chunkCount := seen.chunkCount + 1, fact := some (offset, ofLe c.payload) }
  | data (hguid : c.guid = w64DataGuid) (hnew : seen.data = none) :
      Notes c offset seen { seen with chunkCount := seen.chunkCount + 1, data := some (offset, c.payload.length) }
  | other (hfmt : c.guid ≠ w64FmtGuid) (hfact : c.guid ≠ w64FactGuid) (hdata : c.guid ≠ w64DataGuid) :
      Notes c offset seen { seen with chunkCount := seen.chunkCount + 1 }

/-- Chunk after chunk. -/
inductive NotesAll : ℕ → Seen → List Chunk → Seen → Prop where
  | nil (offset : ℕ) (seen : Seen) : NotesAll offset seen [] seen
  | cons {offset : ℕ} {seen seen' seen'' : Seen} {c : Chunk} {chunks : List Chunk} (hcount : seen.chunkCount + 1 < 2 ^ 32)
      (hc : Notes c offset seen seen') (hrest : NotesAll (offset + c.bytes.length + c.padding.length) seen' chunks seen'') :
      NotesAll offset seen (c :: chunks) seen''

variable {file rest : List UInt8} {c : Chunk} {offset : ℕ} {seen seen' : Seen} {ssrc : Bool} {t t' : Traversal}

theorem length_w64FmtGuid : w64FmtGuid.length = 16 := rfl
theorem length_w64DataGuid : w64DataGuid.length = 16 := rfl

theorem fmt_ne_fact : w64FmtGuid ≠ w64FactGuid := by decide
theorem fmt_ne_data : w64FmtGuid ≠ w64DataGuid := by decide
theorem fact_ne_data : w64FactGuid ≠ w64DataGuid := by decide

/-- The payload of a chunk, read at its offset. -/
theorem drop_payload (hdrop : file.drop offset = c.bytes ++ rest) : file.drop (offset + chunkHeaderBytes) = c.payload ++ rest := by
  have hheader : (c.guid ++ leBytes 8 (chunkHeaderBytes + c.payload.length)).length = chunkHeaderBytes := by
    rw [List.length_append, c.guidLength, length_leBytes]
    rfl
  rw [← List.drop_drop, hdrop, Chunk.bytes, ← List.append_assoc, List.append_assoc _ c.payload rest]
  exact List.drop_left' hheader

theorem length_of_drop (hdrop : file.drop offset = c.bytes ++ rest) :
    offset + (24 + c.payload.length) + rest.length = file.length := by
  have hlength := congrArg List.length hdrop
  rw [List.length_drop, List.length_append, c.length_bytes] at hlength
  omega

theorem readExactAt_of_drop {n : ℕ} {bytes : List UInt8} (hle : offset + n ≤ file.length) (hbytes : (file.drop offset).take n = bytes) :
    readExactAt file offset n = .ok bytes := by
  rw [readExactAt, readAt, if_pos hle, hbytes]

theorem parseFormat_eq (hdrop : file.drop offset = c.bytes ++ rest) :
    parseFormat file (offset + chunkHeaderBytes) c.payload.length = parsePayload c.payload := by
  have hlength := length_of_drop hdrop
  have hread : readExactAt file (offset + chunkHeaderBytes) (min c.payload.length 40) = .ok (c.payload.take 40) := by
    refine readExactAt_of_drop ?_ ?_
    · rw [chunkHeaderBytes]
      omega
    · rw [drop_payload hdrop, List.take_append_of_le_length (min_le_left _ _), min_comm, ← List.take_take, List.take_length]
  rw [parseFormat, parsePayload, hread]
  rfl

theorem noteChunk_eq_ok (hdrop : file.drop offset = c.bytes ++ rest) :
    noteChunk file seen offset c.guid (offset + chunkHeaderBytes) c.payload.length = .ok seen' ↔
      seen.chunkCount + 1 < 2 ^ 32 ∧ Notes c offset seen seen' := by
  rw [noteChunk, require_bind_eq_ok, parseFormat_eq hdrop]
  refine and_congr_right fun _ => ?_
  dsimp only
  split
  · rename_i hguid
    rw [require_bind_eq_ok, bind_eq_ok]
    constructor
    · rintro ⟨hnew, format, hparse, ⟨⟩⟩
      exact .format hguid hnew hparse
    · rintro (⟨-, hnew, hparse⟩ | ⟨hguid', -, -⟩ | ⟨hguid', -⟩ | ⟨hnot, -, -⟩)
      · exact ⟨hnew, _, hparse, rfl⟩
      · exact absurd (hguid.symm.trans hguid') fmt_ne_fact
      · exact absurd (hguid.symm.trans hguid') fmt_ne_data
      · exact absurd hguid hnot
  split
  · rename_i hfmt hguid
    have hread : c.payload.length = 8 → readExactAt file (offset + chunkHeaderBytes) 8 = .ok c.payload := by
      intro h8
      have hlength := length_of_drop hdrop
      refine readExactAt_of_drop ?_ ?_
      · rw [chunkHeaderBytes]
        omega
      · rw [drop_payload hdrop, ← h8, List.take_left]
    rw [require_bind_eq_ok, require_bind_eq_ok]
    constructor
    · rintro ⟨hnew, h8, h⟩
      rw [hread h8] at h
      cases h
      exact .fact hguid hnew h8
    · rintro (⟨hguid', -, -⟩ | ⟨-, hnew, h8⟩ | ⟨hguid', -⟩ | ⟨-, hnot, -⟩)
      · exact absurd hguid' hfmt
      · rw [hread h8]
        exact ⟨hnew, h8, rfl⟩
      · exact absurd (hguid.symm.trans hguid') fact_ne_data
      · exact absurd hguid hnot
  split
  · rename_i hfmt hfact hguid
    rw [require_bind_eq_ok]
    constructor
    · rintro ⟨hnew, ⟨⟩⟩
      exact .data hguid hnew
    · rintro (⟨hguid', -, -⟩ | ⟨hguid', -, -⟩ | ⟨-, hnew⟩ | ⟨-, -, hnot⟩)
      · exact absurd hguid' hfmt
      · exact absurd hguid' hfact
      · exact ⟨hnew, rfl⟩
      · exact absurd hguid hnot
  · rename_i hfmt hfact hdata
    constructor
    · rintro ⟨⟩
      exact .other hfmt hfact hdata
    · rintro (⟨hguid', -, -⟩ | ⟨hguid', -, -⟩ | ⟨hguid', -⟩ | ⟨-, -, -⟩)
      · exact absurd hguid' hfmt
      · exact absurd hguid' hfact
      · exact absurd hguid' hdata
      · rfl

/-! ## A pass of the traversal -/

theorem ok_bind {α β : Type} (a : α) (f : α → Except W64ValidationError β) : (Except.ok a >>= f) = f a := rfl

theorem require_of {p : Prop} [Decidable p] (h : p) (message : String) : require p message = .ok () := if_pos h

theorem checkedAdd_of_le {a b : ℕ} (h : a + b ≤ usizeMax) (description : String) : checkedAdd a b description = .ok (a + b) := by
  rw [checkedAdd, Rust.checkedAdd_of_le h]
  rfl

/-- A chunk that stands at the offset is noted, and then the traversal goes on behind it. -/
theorem traverseChunk_eq (hdrop : file.drop t.offset = c.bytes ++ rest) (haligned : t.offset % 8 = 0) (hsize : file.length < 2 ^ 64) :
    traverseChunk file file.length ssrc t =
      noteChunk file t.seen t.offset c.guid (t.offset + chunkHeaderBytes) c.payload.length >>= fun seen =>
        afterChunk file file.length ssrc c.guid t seen (t.offset + c.bytes.length) := by
  have hlength := length_of_drop hdrop
  have hmax : usizeMax = 2 ^ 64 - 1 := rfl
  have hheaderLength : (c.guid ++ leBytes 8 (chunkHeaderBytes + c.payload.length)).length = chunkHeaderBytes := by
    rw [List.length_append, c.guidLength, length_leBytes]
    rfl
  have hheader : readExactAt file t.offset chunkHeaderBytes = .ok (c.guid ++ leBytes 8 (chunkHeaderBytes + c.payload.length)) := by
    refine readExactAt_of_drop ?_ ?_
    · rw [chunkHeaderBytes]
      omega
    · rw [hdrop, Chunk.bytes, ← List.append_assoc, List.append_assoc _ c.payload rest, List.take_left' hheaderLength]
  have hfield : field (c.guid ++ leBytes 8 (chunkHeaderBytes + c.payload.length)) 16 8 = chunkHeaderBytes + c.payload.length := by
    rw [field, List.drop_left' c.guidLength, List.take_of_length_le (length_leBytes 8 _).le, ofLe_leBytes]
    rw [chunkHeaderBytes]
    omega
  have hend : t.offset + (chunkHeaderBytes + c.payload.length) = t.offset + c.bytes.length := by rw [c.length_bytes, chunkHeaderBytes]
  have hbytes := c.length_bytes
  simp only [traverseChunk]
  rw [require_of haligned, ok_bind, require_of (by rw [chunkHeaderBytes]; omega), ok_bind, hheader, ok_bind, hfield,
    List.take_left' c.guidLength, require_of (Nat.le_add_right _ _), ok_bind, checkedAdd_of_le (by rw [hend]; omega), ok_bind, hend,
    require_of (by omega), ok_bind, checkedAdd_of_le (by rw [chunkHeaderBytes]; omega), ok_bind, Nat.add_sub_cancel_left]

theorem leBytes_ofLe (bytes : List UInt8) : leBytes bytes.length (ofLe bytes) = bytes := by
  induction bytes with
  | nil => rfl
  | cons b bytes ih =>
    have hlow : UInt8.ofNat (b.toNat + 256 * ofLe bytes) = b := by
      rw [← UInt8.toNat_inj, UInt8.toNat_ofNat', Nat.add_mul_mod_self_left, Nat.mod_eq_of_lt b.toNat_lt]
    have hhigh : (b.toNat + 256 * ofLe bytes) / 256 = ofLe bytes := by
      have := b.toNat_lt
      omega
    rw [List.length_cons, ofLe, leBytes, hlow, hhigh, ih]

/-- Where a pass succeeds, a chunk stands. -/
theorem exists_chunk_of_traverseChunk {flow : Flow} (h : traverseChunk file file.length ssrc t = .ok flow) :
    t.offset % 8 = 0 ∧ ∃ (c : Chunk) (rest : List UInt8), file.drop t.offset = c.bytes ++ rest := by
  simp only [traverseChunk, require_bind_eq_ok, readExactAt_bind_eq_ok, checkedAdd_bind_eq_ok] at h
  obtain ⟨haligned, -, hread, hmin, -, hend, -⟩ := h
  refine ⟨haligned, ?_⟩
  have hheader : ((file.drop t.offset).take chunkHeaderBytes).length = 24 := by
    rw [List.length_take, List.length_drop, chunkHeaderBytes]
    rw [chunkHeaderBytes] at hread
    omega
  generalize hdrop : file.drop t.offset = suffix at *
  have hsuffix : suffix.length = file.length - t.offset := by rw [← hdrop, List.length_drop]
  generalize hsize : field (suffix.take chunkHeaderBytes) 16 8 = size at *
  have hguid : ((suffix.take chunkHeaderBytes).take 16).length = 16 := by
    rw [List.length_take, hheader]
    rfl
  have hsizeBytes : leBytes 8 size = (suffix.take chunkHeaderBytes).drop 16 := by
    have hwidth : ((suffix.take chunkHeaderBytes).drop 16).length = 8 := by rw [List.length_drop, hheader]
    rw [← hsize, field, List.take_of_length_le hwidth.le, ← hwidth, leBytes_ofLe]
  have hpayload : chunkHeaderBytes + ((suffix.drop chunkHeaderBytes).take (size - chunkHeaderBytes)).length = size := by
    rw [List.length_take, List.length_drop]
    omega
  refine ⟨⟨(suffix.take chunkHeaderBytes).take 16, (suffix.drop chunkHeaderBytes).take (size - chunkHeaderBytes), hguid⟩,
    (suffix.drop chunkHeaderBytes).drop (size - chunkHeaderBytes), ?_⟩
  rw [Chunk.bytes]
  simp only [hpayload, hsizeBytes]
  rw [← List.append_assoc, List.take_append_drop, List.append_assoc, List.take_append_drop, List.take_append_drop]

/-- Where the next chunk begins. -/
theorem next_eq (haligned : offset % 8 = 0) : (offset + c.bytes.length + 7) / 8 * 8 = offset + c.bytes.length + c.padding.length := by
  rw [c.length_bytes, c.length_padding]
  omega

theorem ssrcTail_eq {guid : List UInt8} {chunkEnd : ℕ} (hle : chunkEnd ≤ file.length) (hrest : file.drop chunkEnd = rest) :
    ssrcTail file ssrc guid chunkEnd (file.length - chunkEnd) = .ok (decide (ssrc = true ∧ guid = w64DataGuid ∧ allZero rest = true)) := by
  have hread : readExactAt file chunkEnd (file.length - chunkEnd) = .ok rest :=
    readExactAt_of_drop (by omega) (by rw [List.take_of_length_le (by rw [List.length_drop]), hrest])
  rw [ssrcTail]
  split <;> rename_i h
  · rw [rangeIsAllZero, hread]
    simp only [h.1, h.2, true_and]
    cases hzero : allZero rest <;> simp [hzero, Functor.map, Except.map]
  · rw [decide_eq_false (fun hall => h ⟨hall.1, hall.2.1⟩)]

/-- What may stand behind a chunk. -/
theorem afterChunk_cases (hdrop : file.drop t.offset = c.bytes ++ rest) (haligned : t.offset % 8 = 0) {flow : Flow}
    (h : afterChunk file file.length ssrc c.guid t seen (t.offset + c.bytes.length) = .ok flow) :
    (rest = [] ∧ flow = .done ⟨file.length, seen, t.alignmentPaddingBytes⟩) ∨
      (ssrc = true ∧ c.guid = w64DataGuid ∧ allZero rest = true ∧ ∃ padding, flow = .done ⟨file.length, seen, padding⟩) ∨
        ∃ rest', rest = c.padding ++ rest' ∧ flow = .again ⟨t.offset + c.bytes.length + c.padding.length, seen,
          t.alignmentPaddingBytes + c.padding.length⟩ := by
  have hlength := length_of_drop hdrop
  have hbytes := c.length_bytes
  have hrest : file.drop (t.offset + c.bytes.length) = rest := by rw [← List.drop_drop, hdrop, List.drop_left]
  rw [afterChunk] at h
  split at h
  · rename_i hend
    cases h
    refine .inl ⟨List.length_eq_zero_iff.1 (by omega), by rw [hend]⟩
  · dsimp only at h
    rw [ssrcTail_eq (by omega) hrest, ok_bind] at h
    split at h
    · rename_i htail
      rw [decide_eq_true_iff] at htail
      rw [checkedAdd_bind_eq_ok] at h
      obtain ⟨-, ⟨⟩⟩ := h
      exact .inr (.inl ⟨htail.1, htail.2.1, htail.2.2, _, rfl⟩)
    · obtain ⟨⟨next, padding⟩, hskip, ⟨⟩⟩ := bind_eq_ok.1 h
      obtain ⟨-, hnext, hle, hread, hzero, -, rfl⟩ := skipPadding_eq_ok.1 hskip
      rw [next_eq haligned] at hnext
      subst hnext
      rw [Nat.add_sub_cancel_left] at hread hzero ⊢
      refine .inr (.inr ⟨rest.drop c.padding.length, ?_, rfl⟩)
      rw [hrest] at hzero
      have hpadding : rest.take c.padding.length = c.padding := by
        rw [allZero_iff.1 hzero, List.length_take, Chunk.padding, List.length_replicate]
        congr 1
        rw [c.length_padding] at hread
        omega
      conv_lhs => rw [← List.take_append_drop c.padding.length rest, hpadding]

theorem afterChunk_end (ssrc : Bool) (seen : Seen) (hdrop : file.drop t.offset = c.bytes) :
    ∃ padding, afterChunk file file.length ssrc c.guid t seen (t.offset + c.bytes.length) = .ok (.done ⟨file.length, seen, padding⟩) := by
  have hlength := length_of_drop (hdrop.trans (List.append_nil _).symm)
  have hend : t.offset + c.bytes.length = file.length := by
    rw [c.length_bytes]
    exact hlength
  refine ⟨t.alignmentPaddingBytes, ?_⟩
  rw [afterChunk, if_pos hend, hend]
  rfl

theorem afterChunk_tail (seen : Seen) (hdrop : file.drop t.offset = c.bytes ++ rest) (hsize : file.length < 2 ^ 64)
    (hpadding : t.alignmentPaddingBytes ≤ t.offset) (hssrc : ssrc = true) (hdata : c.guid = w64DataGuid) (hzero : allZero rest = true) :
    ∃ padding, afterChunk file file.length ssrc c.guid t seen (t.offset + c.bytes.length) = .ok (.done ⟨file.length, seen, padding⟩) := by
  have hlength := length_of_drop hdrop
  have hbytes := c.length_bytes
  have hmax : usizeMax = 2 ^ 64 - 1 := rfl
  have hrest : file.drop (t.offset + c.bytes.length) = rest := by rw [← List.drop_drop, hdrop, List.drop_left]
  rw [afterChunk]
  split
  · rename_i hend
    exact ⟨_, by rw [hend]; rfl⟩
  · dsimp only
    rw [ssrcTail_eq (by omega) hrest, ok_bind, if_pos (decide_eq_true ⟨hssrc, hdata, hzero⟩), checkedAdd_of_le (by omega)]
    exact ⟨_, rfl⟩

theorem afterChunk_next {rest' : List UInt8} (seen : Seen) (hdrop : file.drop t.offset = c.bytes ++ (c.padding ++ rest')) (haligned : t.offset % 8 = 0)
    (hsize : file.length < 2 ^ 64) (hpadding : t.alignmentPaddingBytes ≤ t.offset) (hnonempty : c.padding ++ rest' ≠ [])
    (htail : ¬ (ssrc = true ∧ c.guid = w64DataGuid ∧ allZero (c.padding ++ rest') = true)) :
    afterChunk file file.length ssrc c.guid t seen (t.offset + c.bytes.length) =
      .ok (.again ⟨t.offset + c.bytes.length + c.padding.length, seen, t.alignmentPaddingBytes + c.padding.length⟩) := by
  have hlength := length_of_drop hdrop
  have hbytes := c.length_bytes
  have hmax : usizeMax = 2 ^ 64 - 1 := rfl
  have hpos := List.length_pos_iff.2 hnonempty
  rw [List.length_append] at hlength hpos
  have hrest : file.drop (t.offset + c.bytes.length) = c.padding ++ rest' := by rw [← List.drop_drop, hdrop, List.drop_left]
  have hpad := c.length_padding
  have hskip : skipPadding file file.length t.offset (t.offset + c.bytes.length) t.alignmentPaddingBytes =
      .ok (t.offset + c.bytes.length + c.padding.length, t.alignmentPaddingBytes + c.padding.length) := by
    rw [skipPadding_eq_ok, next_eq haligned, Nat.add_sub_cancel_left, hrest, List.take_left]
    refine ⟨?_, rfl, ?_, ?_, c.allZero_padding, ?_, rfl⟩
    all_goals omega
  rw [afterChunk, if_neg (by omega)]
  dsimp only
  rw [ssrcTail_eq (by omega) hrest, ok_bind, if_neg (by simpa using htail), hskip]
  rfl

/-! ## The traversal -/

theorem traverse_end (h : ¬ t.offset < file.length) : traverse file file.length ssrc t = .ok t := by rw [traverse, if_neg h]

theorem traverse_done (h : t.offset < file.length) (hpass : traverseChunk file file.length ssrc t = .ok (.done t')) :
    traverse file file.length ssrc t = .ok t' := by
  rw [traverse, if_pos h]
  split <;> simp_all

theorem traverse_again (h : t.offset < file.length) (hpass : traverseChunk file file.length ssrc t = .ok (.again t')) :
    traverse file file.length ssrc t = traverse file file.length ssrc t' := by
  rw [traverse, if_pos h]
  split <;> simp_all

theorem traverse_error {e : W64ValidationError} (h : t.offset < file.length) (hpass : traverseChunk file file.length ssrc t = .error e) :
    traverse file file.length ssrc t = .error e := by
  rw [traverse, if_pos h]
  split <;> simp_all

/-- **Whatever the traversal goes over is laid out as chunks.** -/
theorem laid_of_traverse (hsize : file.length < 2 ^ 64) (h : traverse file file.length ssrc t = .ok t') (hend : t'.offset = file.length)
    (hle : t.offset ≤ file.length) : ∃ chunks, Laid ssrc chunks (file.drop t.offset) ∧ NotesAll t.offset t.seen chunks t'.seen := by
  induction hn : file.length - t.offset using Nat.strong_induction_on generalizing t with
  | _ n ih =>
    by_cases hlt : t.offset < file.length
    · rcases hpass : traverseChunk file file.length ssrc t with e | flow
      · rw [traverse_error hlt hpass] at h
        cases h
      obtain ⟨haligned, c, rest, hdrop⟩ := exists_chunk_of_traverseChunk hpass
      have hlength := length_of_drop hdrop
      have hpass' := hpass
      rw [traverseChunk_eq hdrop haligned hsize] at hpass'
      obtain ⟨seen, hnote, hafter⟩ := bind_eq_ok.1 hpass'
      obtain ⟨hcount, hnotes⟩ := (noteChunk_eq_ok hdrop).1 hnote
      rcases afterChunk_cases hdrop haligned hafter with ⟨rfl, rfl⟩ | ⟨hssrc, hdata, hzero, padding, rfl⟩ | ⟨rest', rfl, rfl⟩
      · rw [traverse_done hlt hpass] at h
        cases h
        rw [hdrop, List.append_nil]
        exact ⟨[c], .last c, .cons hcount hnotes (.nil _ _)⟩
      · rw [traverse_done hlt hpass] at h
        cases h
        rw [hdrop]
        exact ⟨[c], .tail c hssrc hdata hzero, .cons hcount hnotes (.nil _ _)⟩
      · rw [traverse_again hlt hpass] at h
        rw [List.length_append] at hlength
        have hbytes := c.length_bytes
        obtain ⟨chunks, hlaid, hall⟩ := ih (file.length - (t.offset + c.bytes.length + c.padding.length)) (by omega) h
          (by change t.offset + c.bytes.length + c.padding.length ≤ file.length; omega) rfl
        have hrest : file.drop (t.offset + c.bytes.length + c.padding.length) = rest' := by
          rw [← List.drop_drop, ← List.drop_drop, hdrop, List.drop_left, List.drop_left]
        rw [hrest] at hlaid
        rw [hdrop]
        exact ⟨c :: chunks, .cons c hlaid, .cons hcount hnotes hall⟩
    · rw [traverse_end hlt] at h
      cases h
      rw [List.drop_eq_nil_of_le (not_lt.1 hlt)]
      exact ⟨[], .nil, .nil _ _⟩

/-- A layout of at least one chunk is not all zeros. -/
theorem Laid.not_allZero {chunks : List Chunk} {bytes : List UInt8} (h : Laid ssrc chunks bytes) (hne : chunks ≠ [])
    (hsize : bytes.length < 2 ^ 64) : ¬ allZero bytes = true := by
  cases h with
  | nil => exact absurd rfl hne
  | last c => exact c.not_allZero_bytes hsize
  | tail c =>
    rw [List.length_append] at hsize
    exact fun hzero => c.not_allZero_bytes (by omega) (allZero_append.1 hzero).1
  | cons c =>
    rw [List.length_append] at hsize
    exact fun hzero => c.not_allZero_bytes (by omega) (allZero_append.1 hzero).1

/-- **The traversal goes over whatever is laid out as chunks.** -/
theorem traverse_of_laid (hsize : file.length < 2 ^ 64) {chunks : List Chunk} {bytes : List UInt8} (hlaid : Laid ssrc chunks bytes) :
    ∀ {t : Traversal}, file.drop t.offset = bytes → t.offset ≤ file.length → t.offset % 8 = 0 → t.alignmentPaddingBytes ≤ t.offset →
      ∀ {seen : Seen}, NotesAll t.offset t.seen chunks seen →
        ∃ padding, traverse file file.length ssrc t = .ok ⟨file.length, seen, padding⟩ := by
  have hlt : ∀ {t : Traversal} {c : Chunk} {rest : List UInt8}, file.drop t.offset = c.bytes ++ rest → t.offset < file.length := by
    intro t c rest hdrop
    have hlength := length_of_drop hdrop
    omega
  have hpass : ∀ {t : Traversal} {c : Chunk} {rest : List UInt8} {seen : Seen} {flow : Flow}, file.drop t.offset = c.bytes ++ rest →
      t.offset % 8 = 0 → t.seen.chunkCount + 1 < 2 ^ 32 → Notes c t.offset t.seen seen →
        afterChunk file file.length ssrc c.guid t seen (t.offset + c.bytes.length) = .ok flow →
          traverseChunk file file.length ssrc t = .ok flow := by
    intro t c rest seen flow hdrop haligned hcount hnotes hafter
    rw [traverseChunk_eq hdrop haligned hsize, (noteChunk_eq_ok hdrop).2 ⟨hcount, hnotes⟩, ok_bind, hafter]
  induction hlaid with
  | nil =>
    intro t hdrop hle _ _ seen hnotes
    cases hnotes
    have hend : ¬ t.offset < file.length := by
      have hlength := congrArg List.length hdrop
      rw [List.length_drop, List.length_nil] at hlength
      omega
    refine ⟨t.alignmentPaddingBytes, ?_⟩
    rw [traverse_end hend, show file.length = t.offset by omega]
  | last c =>
    intro t hdrop _ haligned _ seen hnotes
    cases hnotes with
    | cons hcount hc hrest =>
      cases hrest
      obtain ⟨padding, hafter⟩ := afterChunk_end ssrc seen hdrop
      have hdrop := hdrop.trans (List.append_nil _).symm
      exact ⟨padding, traverse_done (hlt hdrop) (hpass hdrop haligned hcount hc hafter)⟩
  | tail c hssrc hdata hzero =>
    intro t hdrop _ haligned hpadding seen hnotes
    cases hnotes with
    | cons hcount hc hrest =>
      cases hrest
      obtain ⟨padding, hafter⟩ := afterChunk_tail seen hdrop hsize hpadding hssrc hdata hzero
      exact ⟨padding, traverse_done (hlt hdrop) (hpass hdrop haligned hcount hc hafter)⟩
  | @cons c chunks rest hlaid ih =>
    intro t hdrop hle haligned hpadding seen hnotes
    have hlength := length_of_drop hdrop
    rw [List.length_append] at hlength
    cases hnotes with
    | @cons _ _ seen' _ _ _ hcount hc hrest =>
      by_cases hend : c.padding ++ rest = [] ∨ ssrc = true ∧ c.guid = w64DataGuid ∧ allZero (c.padding ++ rest) = true
      · -- nothing but zeros is left, so no chunk is
        have hzero : allZero rest = true := by
          rcases hend with hnil | ⟨-, -, hzero⟩
          · rw [(List.append_eq_nil_iff.1 hnil).2]
            rfl
          · exact (allZero_append.1 hzero).2
        obtain rfl : chunks = [] := by
          by_contra hne
          exact hlaid.not_allZero hne (by omega) hzero
        cases hrest
        rcases hend with hnil | ⟨hssrc, hdata, hzero⟩
        · rw [hnil, List.append_nil] at hdrop
          obtain ⟨padding, hafter⟩ := afterChunk_end ssrc seen hdrop
          have hdrop := hdrop.trans (List.append_nil _).symm
          exact ⟨padding, traverse_done (hlt hdrop) (hpass hdrop haligned hcount hc hafter)⟩
        · obtain ⟨padding, hafter⟩ := afterChunk_tail seen hdrop hsize hpadding hssrc hdata hzero
          exact ⟨padding, traverse_done (hlt hdrop) (hpass hdrop haligned hcount hc hafter)⟩
      · obtain ⟨hnonempty, htail⟩ := not_or.1 hend
        have hafter := afterChunk_next seen' hdrop haligned hsize hpadding hnonempty htail
        rw [traverse_again (hlt hdrop) (hpass hdrop haligned hcount hc hafter)]
        have hbytes := c.length_bytes
        have hpad := c.length_padding
        refine ih ?_ ?_ ?_ ?_ hrest
        · change file.drop (t.offset + c.bytes.length + c.padding.length) = rest
          rw [← List.drop_drop, ← List.drop_drop, hdrop, List.drop_left, List.drop_left]
        · change t.offset + c.bytes.length + c.padding.length ≤ file.length
          omega
        · change (t.offset + c.bytes.length + c.padding.length) % 8 = 0
          omega
        · change t.alignmentPaddingBytes + c.padding.length ≤ t.offset + c.bytes.length + c.padding.length
          omega

end Wave64
