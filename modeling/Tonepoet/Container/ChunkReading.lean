import Mathlib.Tactic.IntervalCases
import Tonepoet.Container.Reader

/-!
# Reading chunks that are there

What the inspection and the readers find at the offset of a chunk.
-/

namespace Container

open Rust ByteFile ChunkFile

/-! ## Reading a chunk -/

section
variable {file : List UInt8} {pos : ℕ} {c : Chunk}

theorem paddedChunkEnd_of_le {dataOffset dataSize : ℕ} (h : dataOffset + dataSize + dataSize % 2 ≤ usizeMax) :
    paddedChunkEnd dataOffset dataSize = some (dataOffset + dataSize + dataSize % 2) := by
  rw [paddedChunkEnd, checkedAdd_of_le (by omega), Option.bind_some, checkedAdd_of_le h]

theorem readChunkHeader_of_holds {dataOverflow : String} {endOverflow payloadOverflow : String → String} (hfile : file.length ≤ usizeMax)
    (h : Holds file pos c.bytes) : readChunkHeader file dataOverflow endOverflow payloadOverflow pos = .ok (c.header pos) := by
  have hle := h.le_length
  have hlength := c.length_bytes
  have hsize : c.data.length < 256 ^ 8 := by
    rw [usizeMax] at hfile
    omega
  have hdata : checkedAdd pos chunkHeaderSize = some (pos + 12) := checkedAdd_of_le (by rw [chunkHeaderSize]; omega)
  have hnext : paddedChunkEnd (pos + 12) c.data.length = some (pos + c.bytes.length) := by
    rw [paddedChunkEnd_of_le (by omega)]
    exact congrArg some (by omega)
  have hpayload : checkedAdd (pos + 12) c.data.length = some (pos + 12 + c.data.length) := checkedAdd_of_le (by omega)
  rw [readChunkHeader, readFourcc_of_holds (holds_id h) c.idLength, readU64Be_of_holds (holds_size h) hsize]
  dsimp only [bind, Except.bind]
  split
  · rename_i hnone
    rw [hdata] at hnone
    cases hnone
  · rename_i dataOffset hsome
    cases hdata.symm.trans hsome
    split
    · rename_i hnone
      rw [hnext] at hnone
      cases hnone
    · rename_i next hsome
      cases hnext.symm.trans hsome
      rw [hpayload]
      rfl

theorem readSubchunkHeader_of_holds {dataOverflow : String} {payloadOverflow : ℕ → ℕ → DsdReadError} {endOverflow : String}
    (hfile : file.length ≤ usizeMax) (h : Holds file pos c.bytes) :
    readSubchunkHeader file dataOverflow payloadOverflow endOverflow pos = .ok (c.header pos) := by
  have hle := h.le_length
  have hlength := c.length_bytes
  have hsize : c.data.length < 256 ^ 8 := by
    rw [usizeMax] at hfile
    omega
  have hdata : checkedAdd pos chunkHeaderSize = some (pos + 12) := checkedAdd_of_le (by rw [chunkHeaderSize]; omega)
  have hnext : paddedChunkEnd (pos + 12) c.data.length = some (pos + c.bytes.length) := by
    rw [paddedChunkEnd_of_le (by omega)]
    exact congrArg some (by omega)
  have hpayload : checkedAdd (pos + 12) c.data.length = some (pos + 12 + c.data.length) := checkedAdd_of_le (by omega)
  rw [readSubchunkHeader, readFourcc_of_holds (holds_id h) c.idLength, readU64Be_of_holds (holds_size h) hsize]
  dsimp only [bind, Except.bind]
  split
  · rename_i hnone
    rw [hdata] at hnone
    cases hnone
  · rename_i dataOffset hsome
    cases hdata.symm.trans hsome
    rw [hpayload]
    dsimp only
    split
    · rename_i hnone
      rw [hnext] at hnone
      cases hnone
    · rename_i next hsome
      cases hnext.symm.trans hsome
      rfl

theorem validateZeroPadByte_of_holds {enclosingEnd chunkOffset : ℕ} (h : Holds file pos c.bytes) (hend : pos + c.bytes.length ≤ enclosingEnd) :
    validateZeroPadByte file (pos + 12 + c.data.length) c.data.length enclosingEnd chunkOffset = .ok [] := by
  have hlength := c.length_bytes
  rw [validateZeroPadByte]
  by_cases heven : c.data.length % 2 = 0
  · rw [if_pos heven]
  · have hpad := holds_padding h
    rw [padding, if_pos (by omega)] at hpad
    have hread : (readExact file (pos + 12 + c.data.length) 1 : Except DsdContainerError (List UInt8)) = .ok [0] := readExact_of_holds hpad
    rw [if_neg heven, if_neg (by omega), hread]
    rfl

theorem validateStreamZeroPadByte_of_holds {enclosingEnd chunkOffset : ℕ} {context : String} (h : Holds file pos c.bytes)
    (hend : pos + c.bytes.length ≤ enclosingEnd) :
    validateStreamZeroPadByte file (pos + 12 + c.data.length) c.data.length enclosingEnd chunkOffset context = .ok () := by
  have hlength := c.length_bytes
  rw [validateStreamZeroPadByte]
  by_cases heven : c.data.length % 2 = 0
  · rw [if_pos heven]
  · have hpad := holds_padding h
    rw [padding, if_pos (by omega)] at hpad
    have hread : (readExact file (pos + 12 + c.data.length) 1 : Except DsdReadError (List UInt8)) = .ok [0] := readExact_of_holds hpad
    rw [if_neg heven, if_neg (by omega), hread]
    rfl

end

/-! ## The properties -/

@[simp] theorem push_nil (s : DsdiffScan) : s.push [] = s := by rw [DsdiffScan.push, List.append_nil]

theorem diagnose_of {condition : Prop} [Decidable condition] {d : DsdContainerDiagnostic} (h : condition) : diagnose condition d = [] := if_pos h

section
variable {file : List UInt8} {pos propEnd : ℕ} {c : Chunk} {s : PropScan}

theorem visitProperty_of_holds (h : Holds file pos c.bytes) (hend : pos + c.bytes.length ≤ propEnd) :
    visitProperty file propEnd pos (c.header pos) s = .next <$>
      if c.id = idFs then visitFs file pos (pos + 12) c.data.length s
      else if c.id = idChnl then visitChnl file pos (pos + 12) c.data.length s
      else if c.id = idCmpr then visitCmpr file pos (pos + 12) c.data.length s
      else .ok s := by
  have hlength := c.length_bytes
  have hpayload : ¬ (pos + 12 + c.data.length > propEnd) := by omega
  unfold visitProperty
  simp only [Chunk.header, if_neg hpayload, validateZeroPadByte_of_holds h hend, bind, Except.bind, push_nil, chunkHeaderSize]

theorem readChannelIds_of_holds : ∀ {ids : List (List UInt8)} {offset : ℕ}, (∀ id ∈ ids, id.length = 4) → Holds file offset ids.flatten →
    readChannelIds file offset ids.length = .ok ids
  | [], _, _, _ => rfl
  | id :: ids, offset, hlen, h => by
    have hid := hlen id List.mem_cons_self
    rw [List.flatten_cons] at h
    have hright := h.right
    rw [hid] at hright
    rw [List.length_cons, readChannelIds, readFourcc_of_holds h.left hid]
    dsimp only [bind, Except.bind]
    rw [readChannelIds_of_holds (fun d hd => hlen d (List.mem_cons_of_mem _ hd)) hright]
    rfl

theorem visitFs_of_holds {sampleRate : ℕ} (h : Holds file pos (chunk 'F' 'S' ' ' ' ' (beBytes 4 sampleRate)).bytes) (hrate : sampleRate < 2 ^ 32)
    (hcount : s.fsCount = 0) :
    visitFs file pos (pos + 12) 4 s = .ok { s with fsCount := s.fsCount + 1, found := { s.found with sampleRate := some sampleRate } } := by
  have hread : (readU32Be file (pos + 12) : Except DsdContainerError ℕ) = .ok sampleRate := readU32Be_of_holds (holds_data h) hrate
  rw [visitFs, diagnose_of hcount, push_nil]
  dsimp only
  rw [if_neg (not_not.2 rfl), hread]
  rfl

theorem visitChnl_of_holds {ids : List (List UInt8)} (h : Holds file pos (chunk 'C' 'H' 'N' 'L' (beBytes 2 ids.length ++ ids.flatten)).bytes)
    (hids : ids.length < 1000) (hidLength : ∀ id ∈ ids, id.length = 4) (hcount : s.chnlCount = 0) :
    visitChnl file pos (pos + 12) (2 + 4 * ids.length) s = .ok { s with
      chnlCount := s.chnlCount + 1
      found := { s.found with channelCount := some ids.length, channelIds := ids } } := by
  have hdata := holds_data h
  have hread : (readU16Be file (pos + 12) : Except DsdContainerError ℕ) = .ok ids.length := readU16Be_of_holds hdata.left (by omega)
  have hflatten := hdata.right
  rw [length_beBytes] at hflatten
  have hsize : ¬ (2 + 4 * ids.length < 2) := by omega
  have havailable : (2 + 4 * ids.length - 2) / 4 = ids.length := by omega
  have hmin : min ids.length 65535 = ids.length := Nat.min_eq_left (by omega)
  rw [visitChnl, diagnose_of hcount, push_nil]
  dsimp only
  rw [if_neg hsize, hread, havailable, hmin]
  dsimp only [bind, Except.bind]
  rw [readChannelIds_of_holds hidLength hflatten]
  dsimp only
  rw [diagnose_of rfl, diagnose_of rfl, List.append_nil, push_nil]
  rfl

theorem visitCmpr_of_holds {code name : List UInt8} (h : Holds file pos (chunk 'C' 'M' 'P' 'R' (code ++ name)).bytes) (hcode : code.length = 4)
    (hcount : s.cmprCount = 0) :
    visitCmpr file pos (pos + 12) (code ++ name).length s =
      .ok { s with cmprCount := s.cmprCount + 1, found := { s.found with cmpr := some code } } := by
  have hread : (readFourcc file (pos + 12) : Except DsdContainerError (List UInt8)) = .ok code := readFourcc_of_holds (holds_data h).left hcode
  have hsize : ¬ ((code ++ name).length < 4) := by
    rw [List.length_append]
    omega
  rw [visitCmpr, diagnose_of hcount, push_nil]
  dsimp only
  rw [if_neg hsize, hread]
  rfl

theorem visitProperty_fs {sampleRate : ℕ} (h : Holds file pos (chunk 'F' 'S' ' ' ' ' (beBytes 4 sampleRate)).bytes)
    (hend : pos + (chunk 'F' 'S' ' ' ' ' (beBytes 4 sampleRate)).bytes.length ≤ propEnd) (hrate : sampleRate < 2 ^ 32) (hcount : s.fsCount = 0) :
    visitProperty file propEnd pos ((chunk 'F' 'S' ' ' ' ' (beBytes 4 sampleRate)).header pos) s =
      .ok (.next { s with fsCount := s.fsCount + 1, found := { s.found with sampleRate := some sampleRate } }) := by
  rw [visitProperty_of_holds h hend, chunk_id, chunk_data, length_beBytes, if_pos (show fourcc 'F' 'S' ' ' ' ' = idFs from rfl),
    visitFs_of_holds h hrate hcount]
  rfl

theorem visitProperty_chnl {ids : List (List UInt8)} (h : Holds file pos (chunk 'C' 'H' 'N' 'L' (beBytes 2 ids.length ++ ids.flatten)).bytes)
    (hend : pos + (chunk 'C' 'H' 'N' 'L' (beBytes 2 ids.length ++ ids.flatten)).bytes.length ≤ propEnd) (hids : ids.length < 1000)
    (hidLength : ∀ id ∈ ids, id.length = 4) (hcount : s.chnlCount = 0) :
    visitProperty file propEnd pos ((chunk 'C' 'H' 'N' 'L' (beBytes 2 ids.length ++ ids.flatten)).header pos) s = .ok (.next { s with
      chnlCount := s.chnlCount + 1
      found := { s.found with channelCount := some ids.length, channelIds := ids } }) := by
  have hlength : (beBytes 2 ids.length ++ ids.flatten).length = 2 + 4 * ids.length := by
    rw [List.length_append, length_beBytes, length_flatten_ids hidLength]
  rw [visitProperty_of_holds h hend, chunk_id, chunk_data, hlength, if_neg (show fourcc 'C' 'H' 'N' 'L' ≠ idFs by decide),
    if_pos (show fourcc 'C' 'H' 'N' 'L' = idChnl from rfl), visitChnl_of_holds h hids hidLength hcount]
  rfl

theorem visitProperty_cmpr {code name : List UInt8} (h : Holds file pos (chunk 'C' 'M' 'P' 'R' (code ++ name)).bytes)
    (hend : pos + (chunk 'C' 'M' 'P' 'R' (code ++ name)).bytes.length ≤ propEnd) (hcode : code.length = 4) (hcount : s.cmprCount = 0) :
    visitProperty file propEnd pos ((chunk 'C' 'M' 'P' 'R' (code ++ name)).header pos) s =
      .ok (.next { s with cmprCount := s.cmprCount + 1, found := { s.found with cmpr := some code } }) := by
  rw [visitProperty_of_holds h hend, chunk_id, chunk_data, if_neg (show fourcc 'C' 'M' 'P' 'R' ≠ idFs by decide),
    if_neg (show fourcc 'C' 'M' 'P' 'R' ≠ idChnl by decide), if_pos (show fourcc 'C' 'M' 'P' 'R' = idCmpr from rfl),
    visitCmpr_of_holds h hcode hcount]
  rfl

theorem visitProperty_lsco {lsco : List UInt8} (h : Holds file pos (chunk 'L' 'S' 'C' 'O' lsco).bytes)
    (hend : pos + (chunk 'L' 'S' 'C' 'O' lsco).bytes.length ≤ propEnd) :
    visitProperty file propEnd pos ((chunk 'L' 'S' 'C' 'O' lsco).header pos) s = .ok (.next s) := by
  rw [visitProperty_of_holds h hend, chunk_id, if_neg (show fourcc 'L' 'S' 'C' 'O' ≠ idFs by decide),
    if_neg (show fourcc 'L' 'S' 'C' 'O' ≠ idChnl by decide), if_neg (show fourcc 'L' 'S' 'C' 'O' ≠ idCmpr by decide)]
  rfl

/-- `PROP` says its rate, channels and compression, and nothing is wrong with it. -/
theorem parsePropChunk_of_holds {sampleRate : ℕ} {ids : List (List UInt8)} {code name lsco : List UInt8} {found : DsdiffScan}
    (hfile : file.length ≤ usizeMax) (hrate : sampleRate < 2 ^ 32) (hcount : ids.length < 1000)
    (hidLength : ∀ id ∈ ids, id.length = 4) (hcode : code.length = 4)
    (h : Holds file pos (fourcc 'S' 'N' 'D' ' ' ++ bytesOf (propertyChunks sampleRate ids (code ++ name) lsco))) :
    parsePropChunk file pos (fourcc 'S' 'N' 'D' ' ' ++ bytesOf (propertyChunks sampleRate ids (code ++ name) lsco)).length found =
      .ok { found with sampleRate := some sampleRate, channelCount := some ids.length, channelIds := ids, cmpr := some code } := by
  have hle := h.le_length
  have hchunks := h.right
  have hflatten := length_flatten_ids hidLength
  have htotal : (fourcc 'S' 'N' 'D' ' ' ++ bytesOf (propertyChunks sampleRate ids (code ++ name) lsco)).length =
      4 + (bytesOf (propertyChunks sampleRate ids (code ++ name) lsco)).length := by
    rw [List.length_append, length_fourcc]
  have hchnl : (beBytes 2 ids.length ++ ids.flatten).length = 2 + 4 * ids.length := by
    rw [List.length_append, length_beBytes, hflatten]
  rw [length_fourcc] at hchunks
  rw [htotal] at hle ⊢
  rw [parsePropChunk, ensure_of (by omega), readFourcc_of_holds h.left (length_fourcc _ _ _ _), checkedAdd_of_le (by omega),
    checkedAdd_of_le (by omega)]
  dsimp only [bind, Except.bind, orError_some]
  rw [diagnose_of (show fourcc 'S' 'N' 'D' ' ' = idSnd from rfl), push_nil]
  have hlength : (bytesOf (propertyChunks sampleRate ids (code ++ name) lsco)).length =
      (chunk 'F' 'S' ' ' ' ' (beBytes 4 sampleRate)).bytes.length +
        ((chunk 'C' 'H' 'N' 'L' (beBytes 2 ids.length ++ ids.flatten)).bytes.length +
          ((chunk 'C' 'M' 'P' 'R' (code ++ name)).bytes.length + (chunk 'L' 'S' 'C' 'O' lsco).bytes.length)) := by
    rw [propertyChunks, bytesOf_cons, bytesOf_cons, bytesOf_cons, bytesOf_cons, bytesOf_nil, List.append_nil, List.length_append,
      List.length_append, List.length_append]
  rw [propertyChunks, bytesOf_cons, bytesOf_cons, bytesOf_cons, bytesOf_cons, bytesOf_nil, List.append_nil] at hchunks
  have hfs := hchunks.left
  have hids := hchunks.right.left
  have hcmpr := hchunks.right.right.left
  have hlsco := hchunks.right.right.right
  have hheader : ∀ {p : ℕ} {c : Chunk}, Holds file p c.bytes → readChunkHeader file "DSDIFF property data offset overflow"
      (fun id => s!"{id} property chunk end offset overflow") (fun id => s!"{id} property payload end overflow") p = .ok (c.header p) :=
    readChunkHeader_of_holds hfile
  rw [hlength]
  rw [scan_next (by omega) (hheader hfs) (visitProperty_fs hfs (by omega) hrate rfl),
    scan_next (by omega) (hheader hids) (visitProperty_chnl hids (by omega) hcount hidLength rfl),
    scan_next (by omega) (hheader hcmpr) (visitProperty_cmpr hcmpr (by omega) hcode rfl),
    scan_next (by omega) (hheader hlsco) (visitProperty_lsco hlsco (by omega)),
    scan_done (by omega)]
  dsimp only
  rw [diagnose_of (by omega), push_nil]
  rfl

end

/-! ## The top level -/

section
variable {file : List UInt8} {pos scanEnd : ℕ} {c : Chunk} {s : DsdiffScan}

theorem visitTopLevel_of_holds (h : Holds file pos c.bytes) (hend : pos + c.bytes.length ≤ scanEnd) :
    visitTopLevel file scanEnd pos (c.header pos) s = .next <$>
      if c.id = idFver then visitFver file pos (pos + 12) c.data.length s
      else if c.id = idProp then
        parsePropChunk file (pos + 12) c.data.length ({ s with propCount := s.propCount + 1 }.push
          (diagnose (s.propCount = 0) (.error pos "duplicate DSDIFF PROP chunk")))
      else if c.id = idDsf ∨ c.id = idDst then visitAudio file c.id pos (pos + 12) c.data.length s
      else .ok s := by
  have hlength := c.length_bytes
  have hpayload : ¬ (pos + 12 + c.data.length > scanEnd) := by omega
  unfold visitTopLevel
  simp only [Chunk.header, if_neg hpayload, validateZeroPadByte_of_holds h hend, bind, Except.bind, push_nil, chunkHeaderSize]

theorem visitTopLevel_fver (h : Holds file pos versionChunk.bytes) (hend : pos + versionChunk.bytes.length ≤ scanEnd) (hcount : s.fverCount = 0) :
    visitTopLevel file scanEnd pos (versionChunk.header pos) s = .ok (.next { s with fverCount := s.fverCount + 1 }) := by
  have hread : (readU32Be file (pos + 12) : Except DsdContainerError ℕ) = .ok 0x01050000 := readU32Be_of_holds (holds_data h) (by decide)
  rw [visitTopLevel_of_holds h hend, if_pos (show versionChunk.id = idFver from rfl), show versionChunk.data.length = 4 from rfl,
    visitFver, diagnose_of hcount, push_nil]
  dsimp only
  rw [if_pos (Nat.le_refl 4), hread]
  dsimp only [bind, Except.bind]
  rw [diagnose_of rfl, push_nil]
  rfl

theorem visitTopLevel_prop {sampleRate : ℕ} {ids : List (List UInt8)} {code name lsco : List UInt8} (hfile : file.length ≤ usizeMax)
    (hrate : sampleRate < 2 ^ 32) (hids : ids.length < 1000) (hidLength : ∀ id ∈ ids, id.length = 4) (hcode : code.length = 4)
    (hc : c = chunk 'P' 'R' 'O' 'P' (fourcc 'S' 'N' 'D' ' ' ++ bytesOf (propertyChunks sampleRate ids (code ++ name) lsco)))
    (h : Holds file pos c.bytes) (hend : pos + c.bytes.length ≤ scanEnd) (hcount : s.propCount = 0) :
    visitTopLevel file scanEnd pos (c.header pos) s = .ok (.next { s with
      propCount := s.propCount + 1
      sampleRate := some sampleRate
      channelCount := some ids.length
      channelIds := ids
      cmpr := some code }) := by
  rw [visitTopLevel_of_holds h hend]
  have hdata := holds_data h
  subst hc
  rw [chunk_id, chunk_data, if_neg (show fourcc 'P' 'R' 'O' 'P' ≠ idFver by decide), if_pos (show fourcc 'P' 'R' 'O' 'P' = idProp from rfl),
    diagnose_of hcount, push_nil, parsePropChunk_of_holds hfile hrate hids hidLength hcode hdata]
  rfl

/-- The identifiers that mean something at the top level. -/
def topLevelIds : List (List UInt8) := [idFver, idProp, idDsf, idDst]

/-- A chunk that may follow the audio: the version, the properties and the audio have their own place. -/
structure FooterChunk extends Chunk where
  other : id ∉ topLevelIds

/-- What `set_footer_bytes` is given. -/
def footerOf (footer : List FooterChunk) : List UInt8 := bytesOf (footer.map FooterChunk.toChunk)

theorem visitTopLevel_other (h : Holds file pos c.bytes) (hend : pos + c.bytes.length ≤ scanEnd) (hid : c.id ∉ topLevelIds) :
    visitTopLevel file scanEnd pos (c.header pos) s = .ok (.next s) := by
  simp only [topLevelIds, List.mem_cons, List.not_mem_nil, or_false, not_or] at hid
  obtain ⟨hfver, hprop, hdsd, hdst⟩ := hid
  rw [visitTopLevel_of_holds h hend, if_neg hfver, if_neg hprop, if_neg (not_or.2 ⟨hdsd, hdst⟩)]
  rfl

theorem visitTopLevel_audio (h : Holds file pos c.bytes) (hend : pos + c.bytes.length ≤ scanEnd) (hid : c.id = idDsf ∨ c.id = idDst) :
    visitTopLevel file scanEnd pos (c.header pos) s = .next <$> visitAudio file c.id pos (pos + 12) c.data.length s := by
  have hfver : c.id ≠ idFver := by rcases hid with hid | hid <;> rw [hid] <;> decide
  have hprop : c.id ≠ idProp := by rcases hid with hid | hid <;> rw [hid] <;> decide
  rw [visitTopLevel_of_holds h hend, if_neg hfver, if_neg hprop, if_pos hid]

end

/-! ## Channel layouts -/

/-- The generic identifiers are those of the check. -/
theorem channelIds_generic {channelCount : ℕ} (hle : channelCount ≤ 255) (htwo : channelCount ≠ 2) (hfive : channelCount ≠ 5)
    (hsix : channelCount ≠ 6) : channelIds channelCount = (List.range channelCount).map genericChannelId := by
  unfold channelIds
  split
  · exact absurd rfl htwo
  · exact absurd rfl hfive
  · exact absurd rfl hsix
  · refine List.map_congr_left fun i hi => ?_
    have hlt := List.mem_range.1 hi
    rw [genericChannelId, Nat.mod_eq_of_lt (show i / 100 < 10 by omega)]

theorem digit_inj {a b : ℕ} (ha : a < 10) (hb : b < 10) (h : UInt8.ofNat (48 + a) = UInt8.ofNat (48 + b)) : a = b := by
  have hnat := congrArg UInt8.toNat h
  rw [UInt8.toNat_ofNat', UInt8.toNat_ofNat'] at hnat
  omega

theorem genericChannelId_inj {i j : ℕ} (hi : i < 1000) (hj : j < 1000) (h : genericChannelId i = genericChannelId j) : i = j := by
  simp only [genericChannelId, List.cons.injEq] at h
  obtain ⟨-, hhundreds, htens, hones, -⟩ := h
  have hhundreds := digit_inj (by omega) (by omega) hhundreds
  have htens := digit_inj (by omega) (by omega) htens
  have hones := digit_inj (by omega) (by omega) hones
  omega

theorem printable_digit {d : ℕ} (h : d < 10) : (0x20 ≤ UInt8.ofNat (48 + d) && UInt8.ofNat (48 + d) ≤ 0x7e) = true := by
  interval_cases d <;> rfl

theorem channelIdBytesDiagnostics_generic (index i : ℕ) : channelIdBytesDiagnostics index (genericChannelId i) = [] := by
  have hnul : ¬ ((genericChannelId i).all (· == 0)) = true := by
    rw [genericChannelId, List.all_cons, show ((67 : UInt8) == 0) = false from rfl, Bool.false_and]
    exact Bool.false_ne_true
  have hprintable : ((genericChannelId i).all fun b => 0x20 ≤ b && b ≤ 0x7e) = true := by
    simp only [genericChannelId, List.all_cons, List.all_nil, printable_digit (Nat.mod_lt _ (show 0 < 10 by decide)), Bool.and_true]
    rfl
  rw [channelIdBytesDiagnostics, diagnose_of hnul, diagnose_of hprintable, List.append_nil]

theorem duplicateIdDiagnostics_generic {channelCount : ℕ} (hle : channelCount ≤ 1000) :
    duplicateIdDiagnostics ((List.range channelCount).map genericChannelId) = [] := by
  have hget : ∀ i < channelCount, ((List.range channelCount).map genericChannelId).getD i [] = genericChannelId i := by
    intro i hi
    rw [List.getD_eq_getElem _ _ (by rwa [List.length_map, List.length_range]), List.getElem_map, List.getElem_range]
  rw [duplicateIdDiagnostics, List.length_map, List.length_range, List.flatMap_eq_nil_iff]
  intro i hi
  rw [List.flatMap_eq_nil_iff]
  intro j hj
  have hi := List.mem_range.1 hi
  have hj := List.mem_range'_1.1 hj
  have hne : genericChannelId i ≠ genericChannelId j := fun h => by
    have heq := genericChannelId_inj (by omega) (by omega) h
    omega
  dsimp only
  rw [diagnose_of]
  rwa [hget i hi, hget j (by omega)]

/-- A channel layout the writers give passes its check. -/
theorem validateDsdiffChannelIds_channelIds {channelCount : ℕ} (hpos : 0 < channelCount) (hle : channelCount ≤ 255) :
    validateDsdiffChannelIds channelCount (channelIds channelCount) = [] := by
  by_cases htwo : channelCount = 2
  · rw [htwo]
    rfl
  by_cases hfive : channelCount = 5
  · rw [hfive]
    rfl
  by_cases hsix : channelCount = 6
  · rw [hsix]
    rfl
  have hlength := length_channelIds channelCount
  have hstandard : standardIds channelCount = none := by rw [standardIds, if_neg htwo, if_neg hfive, if_neg hsix]
  have hmember : ∀ p ∈ ((List.range channelCount).map genericChannelId).zipIdx, p.1 = genericChannelId p.2 := by
    rintro ⟨id, index⟩ hp
    obtain ⟨hlt, hid⟩ := List.mem_zipIdx' hp
    rw [hid, List.getElem_map, List.getElem_range]
  unfold validateDsdiffChannelIds
  dsimp only
  rw [if_neg (Nat.ne_of_gt hpos), if_neg (not_not.2 hlength), hstandard, channelIds_generic hle htwo hfive hsix,
    duplicateIdDiagnostics_generic (by omega), List.append_nil]
  dsimp only
  rw [if_neg (by omega), List.append_eq_nil_iff, List.flatMap_eq_nil_iff, List.flatMap_eq_nil_iff]
  constructor
  · intro p hp
    rw [hmember p hp]
    exact channelIdBytesDiagnostics_generic _ _
  · intro p hp
    rw [genericIdDiagnostics, diagnose_of (hmember p hp)]

/-! ## A whole file -/

/-- A DSDIFF file of chunks: the version, the properties, the audio and what follows. -/
structure IsDsdiff (file : List UInt8) (sampleRate channelCount : ℕ) (name lsco : List UInt8) (audio : Chunk) (others : List Chunk) : Prop where
  layout : file = fourcc 'F' 'R' 'M' '8' ++ (beBytes 8 (file.length - 12) ++ (fourcc 'D' 'S' 'D' ' ' ++
    bytesOf (versionChunk :: propertyChunk sampleRate channelCount (audio.id ++ name) lsco :: audio :: others)))
  length : file.length ≤ usizeMax
  rate : 0 < sampleRate ∧ sampleRate < 2 ^ 32
  channels : 0 < channelCount ∧ channelCount ≤ 255
  audioId : audio.id = idDsf ∨ audio.id = idDst
  othersIds : ∀ c ∈ others, c.id ∉ topLevelIds

section
variable {file : List UInt8} {sampleRate channelCount : ℕ} {name lsco : List UInt8} {audio : Chunk} {others : List Chunk}

/-- Where the audio chunk stands. -/
def audioPos (sampleRate channelCount : ℕ) (compression lsco : List UInt8) : ℕ :=
  32 + (propertyChunk sampleRate channelCount compression lsco).bytes.length

theorem IsDsdiff.holds_chunks (h : IsDsdiff file sampleRate channelCount name lsco audio others) :
    Holds file 16 (bytesOf (versionChunk :: propertyChunk sampleRate channelCount (audio.id ++ name) lsco :: audio :: others)) := by
  refine ⟨fourcc 'F' 'R' 'M' '8' ++ (beBytes 8 (file.length - 12) ++ fourcc 'D' 'S' 'D' ' '), [], ?_, ?_⟩
  · rw [List.append_nil]
    refine h.layout.trans ?_
    simp only [List.append_assoc]
  · rw [List.length_append, List.length_append, length_fourcc, length_beBytes, length_fourcc]

theorem IsDsdiff.holds_front (h : IsDsdiff file sampleRate channelCount name lsco audio others) :
    Holds file 0 (fourcc 'F' 'R' 'M' '8' ++ (beBytes 8 (file.length - 12) ++ fourcc 'D' 'S' 'D' ' ')) := by
  refine ⟨[], bytesOf (versionChunk :: propertyChunk sampleRate channelCount (audio.id ++ name) lsco :: audio :: others), ?_, rfl⟩
  rw [List.nil_append, List.append_assoc, List.append_assoc]
  exact h.layout

theorem IsDsdiff.holds_audio (h : IsDsdiff file sampleRate channelCount name lsco audio others) :
    Holds file (audioPos sampleRate channelCount (audio.id ++ name) lsco) (audio.bytes ++ bytesOf others) := by
  have hchunks := h.holds_chunks
  rw [bytesOf_cons, bytesOf_cons, bytesOf_cons] at hchunks
  exact hchunks.right.right

theorem IsDsdiff.length_eq (h : IsDsdiff file sampleRate channelCount name lsco audio others) :
    file.length = audioPos sampleRate channelCount (audio.id ++ name) lsco + audio.bytes.length + (bytesOf others).length := by
  have hlength := congrArg List.length h.layout
  have hversion : versionChunk.bytes.length = 16 := rfl
  simp only [bytesOf_cons, List.length_append, length_fourcc, length_beBytes, hversion] at hlength
  rw [audioPos]
  omega

/-- **The inspection of a well-formed file** finds what it was made from, and reports no more than the sample count. -/
theorem IsDsdiff.inspect {declared samples : Option ℕ} (h : IsDsdiff file sampleRate channelCount name lsco audio others)
    {ds : List DsdContainerDiagnostic}
    (hvisit : ∀ s : DsdiffScan, s.audioChunkCount = 0 → s.sampleRate = some sampleRate → s.sampleCountPerChannel = none →
      visitAudio file audio.id (audioPos sampleRate channelCount (audio.id ++ name) lsco)
        (audioPos sampleRate channelCount (audio.id ++ name) lsco + 12) audio.data.length s = .ok { s with
          audioChunkCount := 1
          dataChunk := some (audio.id, audioPos sampleRate channelCount (audio.id ++ name) lsco + 12, audio.data.length)
          sampleCountPerChannel := declared })
    (hsamples : (if DsdCompression.fromDsdiffCode audio.id = .dsd then
        dsdSampleCount channelCount (audioPos sampleRate channelCount (audio.id ++ name) lsco + 12) audio.data.length declared
      else (declared, [])) = (samples, ds)) :
    inspectDsdiff file = .ok {
      format := .dsdiff
      compression := .fromDsdiffCode audio.id
      byteOrder := .msbFirst
      channelCount
      sampleRate
      sampleCountPerChannel := samples
      dataOffset := audioPos sampleRate channelCount (audio.id ++ name) lsco + 12
      dataSize := audio.data.length
      metadataOffset := none
      channelIds := channelIds channelCount
      dsfBlockSizePerChannel := none
      dsdiffCmprCode := some audio.id
      dsdiffFrm8Size := some (file.length - 12)
      dsdiffFrm8End := some file.length
      diagnostics := ds } := by
  have hlength := h.length_eq
  have hfile := h.length
  have hmax : usizeMax = 18446744073709551615 := rfl
  have hversion : versionChunk.bytes.length = 16 := rfl
  have hids := length_channelIds channelCount
  have hchannels := h.channels
  have haudioPos : audioPos sampleRate channelCount (audio.id ++ name) lsco =
      32 + (propertyChunk sampleRate channelCount (audio.id ++ name) lsco).bytes.length := rfl
  have hfront := h.holds_front
  have hsize := (Holds.right hfront).left
  have hform := (Holds.right hfront).right
  rw [length_fourcc, Nat.zero_add] at hsize
  rw [length_fourcc, length_beBytes] at hform
  have hchunks := h.holds_chunks
  rw [bytesOf_cons, bytesOf_cons, bytesOf_cons] at hchunks
  have hfver := hchunks.left
  have hprop := hchunks.right.left
  have haudio := h.holds_audio.left
  have hothers := h.holds_audio.right
  rw [hversion] at hprop
  have hend : 12 + (file.length - 12) = file.length := by omega
  have hheader : ∀ {p : ℕ} {c : Chunk}, Holds file p c.bytes → readChunkHeader file "DSDIFF chunk data offset overflow"
      (fun id => s!"{id} chunk end offset overflow") (fun id => s!"{id} chunk payload end overflow") p = .ok (c.header p) :=
    readChunkHeader_of_holds hfile
  rw [inspectDsdiff, readFourcc_of_holds hfront.left (length_fourcc _ _ _ _)]
  dsimp only [bind, Except.bind]
  rw [ensure_of (show fourcc 'F' 'R' 'M' '8' = idFrm8 from rfl), readU64Be_of_holds hsize (by omega)]
  dsimp only
  rw [ensure_of (by omega), readFourcc_of_holds hform (length_fourcc _ _ _ _)]
  dsimp only
  rw [ensure_of (show fourcc 'D' 'S' 'D' ' ' = idDsf from rfl), checkedAdd_of_le (by omega), orError_some]
  dsimp only
  rw [hend, Nat.min_self, show frm8Diagnostics file.length file.length = [] from by
    rw [frm8Diagnostics, if_neg (Nat.lt_irrefl _), diagnose_of rfl]]
  -- the version, the properties, the audio, and what nobody looks at
  rw [scan_next (by omega) (hheader hfver) (visitTopLevel_fver hfver (by omega) rfl), hversion,
    scan_next (by omega) (hheader hprop) (visitTopLevel_prop hfile h.rate.2 (by omega) (fun id hid => length_of_mem_channelIds hid)
      audio.idLength rfl hprop (by omega) rfl),
    ← haudioPos, scan_next (by omega) (hheader haudio) ((visitTopLevel_audio haudio (by omega) h.audioId).trans
      (congrArg (Step.next <$> ·) (hvisit _ rfl rfl rfl))),
    scan_ignored hheader (fun c hc pos s hholds hstop => visitTopLevel_other hholds hstop (h.othersIds c hc)) hothers (by omega),
    scan_done (by omega)]
  dsimp only [DsdiffScan.init]
  rw [diagnose_of (by omega), push_nil, hids]
  dsimp only [orError_some]
  have hcmpr : cmprDiagnostics (.fromDsdiffCode audio.id) (some audio.id) = [] := by
    have hknown : DsdCompression.fromDsdiffCode audio.id ≠ .unknown audio.id := by
      rcases h.audioId with hid | hid <;> rw [hid] <;> decide
    rw [cmprDiagnostics, diagnose_of rfl, diagnose_of hknown]
    rfl
  rw [hsamples, hcmpr, validateDsdiffChannelIds_channelIds h.channels.1 h.channels.2, diagnose_of (Nat.ne_of_gt h.rate.1)]
  dsimp only
  rw [List.append_nil, List.append_nil, List.append_nil, List.nil_append]
  rfl

end

end Container
