import Tonepoet.Wave64.Grammar

/-!
# Where the data chunk lies

The structure that the validator returns says where the data chunk begins and how long it is. From that follows what
stands before it and behind it.
-/

namespace Wave64

open Rust ByteFile

/-- Chunks with the zeros behind each. -/
def paddedBytes (chunks : List Chunk) : List UInt8 := chunks.flatMap fun c => c.bytes ++ c.padding

theorem paddedBytes_cons (c : Chunk) (chunks : List Chunk) : paddedBytes (c :: chunks) = c.bytes ++ (c.padding ++ paddedBytes chunks) := by
  rw [paddedBytes, List.flatMap_cons, List.append_assoc]
  rfl

/-- The end of the data in the file. -/
def W64ExactStructure.dataEnd (s : W64ExactStructure) : ℕ := s.dataPayloadOffset + s.declaredDataBytes

variable {seen seen' : Seen} {offset : ℕ} {c : Chunk} {pre post chunks : List Chunk} {ssrc : Bool} {bytes rest : List UInt8}

/-! ## What has been seen of it -/

theorem Notes.data_of_some {place : ℕ × ℕ} (h : Notes c offset seen seen') (hseen : seen.data = some place) : seen'.data = some place := by
  cases h with
  | format => exact hseen
  | fact => exact hseen
  | data _ hnew =>
    rw [hnew] at hseen
    cases hseen
  | other => exact hseen

theorem NotesAll.data_of_some {place : ℕ × ℕ} (h : NotesAll offset seen chunks seen') (hseen : seen.data = some place) :
    seen'.data = some place := by
  induction h with
  | nil => exact hseen
  | cons _ hc _ ih => exact ih (hc.data_of_some hseen)

/-- The data chunk is noted with its offset and length. -/
theorem Notes.data_eq (h : Notes c offset seen seen') (hc : c.guid = w64DataGuid) : seen'.data = some (offset, c.payload.length) := by
  cases h with
  | format hguid => exact absurd (hguid.symm.trans hc) fmt_ne_data
  | fact hguid => exact absurd (hguid.symm.trans hc) fact_ne_data
  | data => rfl
  | other _ _ hdata => exact absurd hc hdata

/-- **The offset of the data chunk is the length of what stands before it.** -/
theorem NotesAll.data_eq (h : NotesAll offset seen (pre ++ c :: post) seen') (hc : c.guid = w64DataGuid) :
    seen'.data = some (offset + (paddedBytes pre).length, c.payload.length) := by
  induction pre generalizing offset seen with
  | nil =>
    cases h with
    | cons _ hnotes hrest => exact hrest.data_of_some (hnotes.data_eq hc)
  | cons d pre ih =>
    cases h with
    | cons _ _ hrest =>
      rw [ih hrest, paddedBytes_cons, List.length_append, List.length_append, Nat.add_assoc, Nat.add_assoc]

/-! ## What stands around it -/

theorem Laid.split (h : Laid ssrc (pre ++ c :: post) bytes) : ∃ rest, bytes = paddedBytes pre ++ rest ∧ Laid ssrc (c :: post) rest := by
  induction pre generalizing bytes with
  | nil => exact ⟨bytes, rfl, h⟩
  | cons d pre ih =>
    rw [List.cons_append] at h
    generalize hchunks : d :: (pre ++ c :: post) = chunks at h
    cases h with
    | nil => cases hchunks
    | last =>
      obtain ⟨-, hnil⟩ := List.cons.inj hchunks
      exact absurd hnil (by simp)
    | tail =>
      obtain ⟨-, hnil⟩ := List.cons.inj hchunks
      exact absurd hnil (by simp)
    | cons _ hlaid =>
      obtain ⟨rfl, rfl⟩ := List.cons.inj hchunks
      obtain ⟨rest, rfl, hrest⟩ := ih hlaid
      exact ⟨rest, by rw [paddedBytes_cons, List.append_assoc, List.append_assoc], hrest⟩

theorem Laid.join (h : Laid ssrc chunks rest) (pre : List Chunk) : Laid ssrc (pre ++ chunks) (paddedBytes pre ++ rest) := by
  induction pre with
  | nil => exact h
  | cons d pre ih =>
    rw [paddedBytes_cons, List.append_assoc, List.append_assoc]
    exact .cons d ih

/-- A layout is at least as long as its first chunk, and of that length only when there is no other. -/
theorem Laid.head (h : Laid false (c :: chunks) bytes) : c.bytes.length ≤ bytes.length ∧ (bytes.length ≤ c.bytes.length → chunks = [] ∧ bytes = c.bytes) := by
  cases h with
  | last => exact ⟨le_rfl, fun _ => ⟨rfl, rfl⟩⟩
  | tail _ hssrc => cases hssrc
  | cons _ hlaid =>
    rename_i rest
    rw [List.length_append, List.length_append]
    refine ⟨by omega, fun hle => ?_⟩
    obtain rfl : rest = [] := List.length_eq_zero_iff.1 (by omega)
    have hpadding : c.padding = [] := List.length_eq_zero_iff.1 (by omega)
    rw [hpadding, List.append_nil, List.append_nil]
    refine ⟨?_, rfl⟩
    generalize hnil : ([] : List UInt8) = bytes at hlaid
    cases hlaid with
    | nil => rfl
    | last d =>
      have := congrArg List.length hnil
      rw [d.length_bytes, List.length_nil] at this
      omega
    | tail _ hssrc => cases hssrc
    | cons d =>
      have := congrArg List.length hnil
      rw [List.length_append, d.length_bytes, List.length_nil] at this
      omega

/-- A layout with a tail of zeros is one without, or ends with the data chunk and the zeros. -/
theorem Laid.tail_cases (h : Laid true chunks bytes) :
    Laid false chunks bytes ∨ ∃ pre c zeros, chunks = pre ++ [c] ∧ c.guid = w64DataGuid ∧ allZero zeros = true ∧
      bytes = paddedBytes pre ++ (c.bytes ++ zeros) := by
  induction h with
  | nil => exact .inl .nil
  | last c => exact .inl (.last c)
  | tail c _ hdata hzeros => exact .inr ⟨[], c, _, rfl, hdata, hzeros, rfl⟩
  | cons c _ ih =>
    rcases ih with hlaid | ⟨pre, d, zeros, rfl, hdata, hzeros, rfl⟩
    · exact .inl (.cons c hlaid)
    · exact .inr ⟨c :: pre, d, zeros, rfl, hdata, hzeros, by rw [paddedBytes_cons, List.append_assoc, List.append_assoc]⟩

theorem Laid.allowing (h : Laid false chunks bytes) (ssrc : Bool) : Laid ssrc chunks bytes := by
  induction h with
  | nil => exact .nil
  | last c => exact .last c
  | tail _ hssrc => cases hssrc
  | cons c _ ih => exact .cons c ih

/-! ## One layout only -/

/-- What a chunk reads as does not depend on what follows it. -/
theorem Chunk.bytes_append_inj {d : Chunk} {rest' : List UInt8} (h : c.bytes ++ rest = d.bytes ++ rest')
    (hlength : (c.bytes ++ rest).length < 2 ^ 64) : c = d ∧ rest = rest' := by
  have hsizes : (c.bytes ++ rest).length = (d.bytes ++ rest').length := congrArg List.length h
  rw [List.length_append, List.length_append, c.length_bytes, d.length_bytes] at hsizes
  rw [List.length_append, c.length_bytes] at hlength
  have hc := c.guidLength
  have hd := d.guidLength
  simp only [Chunk.bytes, List.append_assoc] at h
  obtain ⟨hguid, h⟩ := List.append_inj h (hc.trans hd.symm)
  obtain ⟨hsize, h⟩ := List.append_inj h (by rw [length_leBytes, length_leBytes])
  have hsame := congrArg ofLe hsize
  rw [ofLe_leBytes (by rw [chunkHeaderBytes]; omega), ofLe_leBytes (by rw [chunkHeaderBytes]; omega)] at hsame
  obtain ⟨hpayload, hrest⟩ := List.append_inj h (Nat.add_left_cancel hsame)
  cases c
  cases d
  cases hguid
  cases hpayload
  exact ⟨rfl, hrest⟩

theorem Laid.nil_iff (h : Laid ssrc chunks bytes) : chunks = [] ↔ bytes = [] := by
  have hne : ∀ {c : Chunk} {rest : List UInt8}, c.bytes ++ rest ≠ [] := by
    intro c rest hnil
    have := congrArg List.length hnil
    rw [List.length_append, c.length_bytes, List.length_nil] at this
    omega
  cases h with
  | nil => exact iff_of_true rfl rfl
  | last c => exact iff_of_false (List.cons_ne_nil _ _) (by rw [← List.append_nil c.bytes]; exact hne)
  | tail c => exact iff_of_false (List.cons_ne_nil _ _) hne
  | cons c => exact iff_of_false (List.cons_ne_nil _ _) hne

/-- What stands behind the first chunk of a layout. -/
theorem Laid.behind (h : Laid false (c :: chunks) bytes) :
    (chunks = [] ∧ bytes = c.bytes ++ []) ∨ ∃ rest, bytes = c.bytes ++ (c.padding ++ rest) ∧ Laid false chunks rest := by
  cases h with
  | last => exact .inl ⟨rfl, (List.append_nil _).symm⟩
  | tail _ hssrc => cases hssrc
  | cons _ hlaid => exact .inr ⟨_, rfl, hlaid⟩

/-- **Bytes are laid out in one way.** -/
theorem Laid.unique {chunks' : List Chunk} (h : Laid false chunks bytes) (h' : Laid false chunks' bytes) (hlength : bytes.length < 2 ^ 64) :
    chunks = chunks' := by
  induction chunks generalizing bytes chunks' with
  | nil => exact (h'.nil_iff.2 (h.nil_iff.1 rfl)).symm
  | cons c chunks ih =>
    cases chunks' with
    | nil =>
      rw [h'.nil_iff.1 rfl] at h
      exact absurd (h.nil_iff.2 rfl) (List.cons_ne_nil _ _)
    | cons d chunks' =>
      have hempty : ∀ {e : Chunk} {chunks : List Chunk} {rest : List UInt8}, [] = e.padding ++ rest → Laid false chunks rest → chunks = [] := by
        intro e chunks rest hnil hlaid
        exact hlaid.nil_iff.2 (List.append_eq_nil_iff.1 hnil.symm).2
      rcases h.behind with ⟨rfl, rfl⟩ | ⟨rest, rfl, hlaid⟩ <;> rcases h'.behind with ⟨rfl, heq⟩ | ⟨rest', heq, hlaid'⟩ <;>
        obtain ⟨rfl, hrest⟩ := Chunk.bytes_append_inj heq hlength
      · rfl
      · rw [hempty hrest hlaid']
      · rw [hempty hrest.symm hlaid]
      · rw [List.append_cancel_left_eq] at hrest
        subst hrest
        rw [List.length_append, List.length_append] at hlength
        rw [ih hlaid hlaid' (by omega)]

theorem IsW64.unique {chunks' : List Chunk} {file : List UInt8} (h : IsW64 false chunks file) (h' : IsW64 false chunks' file) :
    chunks = chunks' := by
  obtain ⟨body, hbody, hlt, hlaid⟩ := h
  obtain ⟨body', hbody', -, hlaid'⟩ := h'
  obtain rfl : body = body' := List.append_cancel_left (hbody.symm.trans hbody')
  refine hlaid.unique hlaid' ?_
  have hlength := congrArg List.length hbody
  rw [List.length_append] at hlength
  omega

theorem exists_dataChunk {payload : List UInt8} (h : payloads w64DataGuid chunks = [payload]) :
    ∃ pre c post, chunks = pre ++ c :: post ∧ c.guid = w64DataGuid ∧ c.payload = payload := by
  have hmem : payload ∈ payloads w64DataGuid chunks := by
    rw [h]
    exact List.mem_singleton_self _
  obtain ⟨c, hc, hpayload⟩ := List.mem_map.1 hmem
  obtain ⟨hc, hguid⟩ := List.mem_filter.1 hc
  obtain ⟨pre, post, hsplit⟩ := List.append_of_mem hc
  exact ⟨pre, c, post, hsplit, of_decide_eq_true hguid, hpayload⟩

/-! ## A file that ends with its data -/

/-- The file whose last chunk is `c`. -/
def endingWith (pre : List Chunk) (c : Chunk) : List UInt8 :=
  rootBytes (40 + (paddedBytes pre).length + c.bytes.length) ++ (paddedBytes pre ++ c.bytes)

@[simp] theorem length_endingWith (pre : List Chunk) (c : Chunk) :
    (endingWith pre c).length = 40 + (paddedBytes pre).length + c.bytes.length := by
  rw [endingWith, List.length_append, List.length_append, length_rootBytes, Nat.add_assoc]

theorem isW64_endingWith (hlength : (endingWith pre c).length < 2 ^ 64) (ssrc : Bool) : IsW64 ssrc (pre ++ [c]) (endingWith pre c) := by
  refine ⟨paddedBytes pre ++ c.bytes, ?_, hlength, (Laid.last c).join pre⟩
  rw [length_endingWith]
  rfl

/-- **What an accepted file shows of its data**: the chunk stands where the structure says, and when the data ends with the file, it is
the last chunk. -/
theorem dataChunk_of_validate {file : List UInt8} {expected : W64PcmFormatExpectation} {frames : Option ℕ} {allow : Bool} {s : W64ExactStructure}
    (h : validateExactW64PcmInner file expected frames allow false = .ok s) :
    ∃ pre c post seen padding, IsW64 false (pre ++ c :: post) file ∧ c.guid = w64DataGuid ∧ NotesAll 40 unseen (pre ++ c :: post) seen ∧
      checkContract file.length expected expected.blockAlign expected.byteRate frames allow ⟨file.length, seen, padding⟩ = .ok s ∧
        s.dataChunkOffset = 40 + (paddedBytes pre).length ∧ s.declaredDataBytes = c.payload.length ∧ s.physicalFileBytes = file.length ∧
          (s.dataEnd = file.length → post = [] ∧ file = endingWith pre c) := by
  obtain ⟨-, chunks, ⟨end_, seen, padding⟩, hfile, -, hnotes, hcontract⟩ := validate_sound h
  obtain ⟨rfl, formatOffset, format, dataOffset, dataBytes, n, -, hdata, -, -, -, rfl⟩ := checkContract_eq_ok.1 hcontract
  obtain ⟨-, -, hshowsData⟩ := showsAll_unseen.notesAll hnotes
  rw [List.nil_append, ShowsData, hdata] at hshowsData
  obtain ⟨payload, hpayloads⟩ : ∃ payload, payloads w64DataGuid chunks = [payload] := by
    generalize payloads w64DataGuid chunks = found at hshowsData
    cases found with
    | nil => cases hshowsData
    | cons payload more =>
      cases more with
      | nil => exact ⟨payload, rfl⟩
      | cons next more => cases hshowsData
  obtain ⟨pre, c, post, rfl, hguid, -⟩ := exists_dataChunk hpayloads
  obtain ⟨rfl, rfl⟩ := Prod.mk.inj (Option.some.inj (hdata.symm.trans (hnotes.data_eq hguid)))
  refine ⟨pre, c, post, seen, padding, hfile, hguid, hnotes, hcontract, rfl, rfl, rfl, fun hend => ?_⟩
  obtain ⟨body, hbody, -, hlaid⟩ := hfile
  obtain ⟨rest, rfl, hrest⟩ := hlaid.split
  have hend : 40 + (paddedBytes pre).length + 24 + c.payload.length = file.length := hend
  have hlength := congrArg List.length hbody
  rw [List.length_append, List.length_append, length_rootBytes] at hlength
  obtain ⟨rfl, rfl⟩ := hrest.head.2 (by rw [c.length_bytes]; omega)
  refine ⟨rfl, ?_⟩
  rw [endingWith, ← Nat.add_assoc] at *
  rw [hbody, show file.length = 40 + (paddedBytes pre).length + c.bytes.length by omega]

end Wave64
