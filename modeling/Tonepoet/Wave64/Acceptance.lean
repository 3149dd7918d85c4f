import Tonepoet.Wave64.DataChunk

/-!
# The two validators accept one grammar

`validate_exact_w64_pcm` accepts the files of the grammar for the expectations that it supports. `validate_ssrc_w64_pcm`
accepts what the exact one accepts once the zeros behind the data chunk are gone.
-/

namespace Wave64

open Rust ByteFile

/-- The file without its last `n` bytes, and the size in its root less by as many. -/
def withoutTail (file : List UInt8) (n : ℕ) : List UInt8 :=
  writeAt (file.take (file.length - n)) 16 (leBytes 8 (field file 16 8 - n))

variable {file body zeros : List UInt8} {expected : W64PcmExpectation} {pre : List Chunk} {c : Chunk} {k m n : ℕ}

/-! ## The size in the root -/

theorem length_w64RiffGuid : w64RiffGuid.length = 16 := rfl

theorem rootBytes_append (k : ℕ) (body : List UInt8) : rootBytes k ++ body = w64RiffGuid ++ (leBytes 8 k ++ (w64WaveGuid ++ body)) := by
  rw [rootBytes, List.append_assoc, List.append_assoc]

theorem writeAt_rootBytes : writeAt (rootBytes m ++ body) 16 (leBytes 8 k) = rootBytes k ++ body := by
  rw [rootBytes_append, rootBytes_append]
  exact writeAt_patch (by rw [length_leBytes, length_leBytes])

theorem field_rootBytes (hm : m < 2 ^ 64) : field (rootBytes m ++ body) 16 8 = m := by
  rw [rootBytes_append, field, List.drop_left' length_w64RiffGuid, List.take_left' (length_leBytes 8 m), ofLe_leBytes hm]

theorem writeAt_eq_of_root (hlength : 24 ≤ file.length) (h : writeAt file 16 (leBytes 8 n) = rootBytes k ++ body) :
    file = rootBytes (field file 16 8) ++ body ∧ leBytes 8 n = leBytes 8 k := by
  rw [rootBytes_append, writeAt, length_leBytes, List.append_assoc] at h
  obtain ⟨hriff, h⟩ := List.append_inj h (by rw [List.length_take, length_w64RiffGuid]; omega)
  obtain ⟨hsize, hrest⟩ := List.append_inj h (by rw [length_leBytes, length_leBytes])
  refine ⟨?_, hsize⟩
  rw [rootBytes_append, ← hriff, ← hrest, ← leBytes_field file 16 8 (by omega), List.take_append_drop]

theorem leBytes_inj (hm : m < 2 ^ 64) (hn : n < 2 ^ 64) (h : leBytes 8 m = leBytes 8 n) : m = n := by
  have hm : m < 256 ^ 8 := hm
  have hn : n < 256 ^ 8 := hn
  rw [← ofLe_leBytes hm, ← ofLe_leBytes hn, h]

/-! ## The tail -/

/-- A file that ends with its data, and zeros behind it. -/
def withTail (pre : List Chunk) (c : Chunk) (zeros : List UInt8) : List UInt8 :=
  rootBytes (40 + (paddedBytes pre).length + c.bytes.length + zeros.length) ++ (paddedBytes pre ++ (c.bytes ++ zeros))

theorem length_withTail (pre : List Chunk) (c : Chunk) (zeros : List UInt8) :
    (withTail pre c zeros).length = 40 + (paddedBytes pre).length + c.bytes.length + zeros.length := by
  simp only [withTail, List.length_append, length_rootBytes]
  omega

theorem withoutTail_withTail (hlength : (withTail pre c zeros).length < 2 ^ 64) :
    withoutTail (withTail pre c zeros) zeros.length = endingWith pre c := by
  have htotal := length_withTail pre c zeros
  have htake : (withTail pre c zeros).take ((withTail pre c zeros).length - zeros.length) =
      rootBytes (withTail pre c zeros).length ++ (paddedBytes pre ++ c.bytes) := by
    rw [htotal, withTail, ← List.append_assoc (paddedBytes pre), ← List.append_assoc (rootBytes _)]
    refine List.take_left' ?_
    simp only [List.length_append, length_rootBytes]
    omega
  have hsize : field (withTail pre c zeros) 16 8 = (withTail pre c zeros).length := by
    conv_lhs => rw [withTail]
    rw [← htotal, field_rootBytes hlength]
  rw [withoutTail, htake, hsize, writeAt_rootBytes, endingWith, htotal, Nat.add_sub_cancel]

theorem isW64_withTail (hlength : (withTail pre c zeros).length < 2 ^ 64) (hdata : c.guid = w64DataGuid) (hzeros : allZero zeros = true) :
    IsW64 true (pre ++ [c]) (withTail pre c zeros) := by
  refine ⟨_, ?_, hlength, (Laid.tail c rfl hdata hzeros).join pre⟩
  rw [length_withTail]
  rfl

theorem length_withoutTail_le (file : List UInt8) (n : ℕ) :
    (withoutTail file n).length = file.length - n ∨ file.length - n < 24 ∧ (withoutTail file n).length ≤ 24 := by
  simp only [withoutTail, writeAt, List.length_append, List.length_take, List.length_drop, length_leBytes]
  omega

/-- What a file has been when its tail is gone and it ends with its data. -/
theorem eq_withTail (h : withoutTail file n = endingWith pre c) (hlength : file.length = (endingWith pre c).length + n)
    (hlt : (endingWith pre c).length < 2 ^ 64) :
    file.length < 2 ^ 64 ∧ ∃ zeros, file = withTail pre c zeros ∧ zeros = file.drop (endingWith pre c).length := by
  have hend := length_endingWith pre c
  have htake : (file.take (file.length - n)).length = (endingWith pre c).length := by
    rw [List.length_take]
    omega
  rw [withoutTail, endingWith] at h
  obtain ⟨hroot, hsize⟩ := writeAt_eq_of_root (by omega) h
  have hfield : field (file.take (file.length - n)) 16 8 = field file 16 8 := by
    rw [field, field, List.drop_take, List.take_take, min_eq_left (by omega)]
  have hfieldLt : field file 16 8 < 2 ^ 64 := field_lt file 16 8
  have hsame := leBytes_inj (by omega) (by omega) hsize
  refine ⟨by omega, file.drop (file.length - n), ?_, by rw [hlength, Nat.add_sub_cancel]⟩
  conv_lhs => rw [← List.take_append_drop (file.length - n) file, hroot, hfield]
  have hzeros : (file.drop (file.length - n)).length = n := by
    rw [List.length_drop]
    omega
  rw [withTail, hzeros, show field file 16 8 = 40 + (paddedBytes pre).length + c.bytes.length + n by omega]
  simp only [List.append_assoc]

/-! ## Acceptance -/

theorem length_lt_of_isW64 {ssrc : Bool} {chunks : List Chunk} (h : IsW64 ssrc chunks file) :
    file.length < 2 ^ 64 ∧ ∀ c ∈ chunks, c.payload.length < 2 ^ 64 := by
  obtain ⟨body, hbody, hlt, hlaid⟩ := h
  refine ⟨hlt, fun c hc => ?_⟩
  have hle := hlaid.length_le hc
  have hlength := congrArg List.length hbody
  rw [List.length_append] at hlength
  omega

/-- An exact file whose last chunk is the data is accepted, and its data ends with it. -/
theorem validate_endingWith (hsupported : Supported expected.toW64PcmFormatExpectation) (hcount : (pre ++ [c]).length < 2 ^ 32)
    (hlength : (endingWith pre c).length < 2 ^ 64) (hdata : c.guid = w64DataGuid) (hexact : Exact expected (pre ++ [c])) :
    ∃ s, validateExactW64Pcm (endingWith pre c) expected = .ok s ∧ s.dataEnd = (endingWith pre c).length := by
  have hfile := isW64_endingWith hlength false
  obtain ⟨seen, hnotes, hcontract⟩ := contract_of_exact (endingWith pre c).length hsupported hcount (length_lt_of_isW64 hfile).2 hexact
  obtain ⟨s, padding, hvalid, hs⟩ := validate_complete hsupported hfile hnotes hcontract
  refine ⟨s, hvalid, ?_⟩
  obtain ⟨-, _, _, dataOffset, dataBytes, _, -, hseen, -, -, -, rfl⟩ := checkContract_eq_ok.1 hs
  obtain ⟨rfl, rfl⟩ := Prod.mk.inj (Option.some.inj (hseen.symm.trans (hnotes.data_eq hdata)))
  rw [length_endingWith, c.length_bytes, W64ExactStructure.dataEnd, W64ExactStructure.dataPayloadOffset, chunkHeaderBytes]
  exact Nat.add_assoc _ _ _

/-- **With a tail allowed, the files are those that the exact validator accepts, as they are or without the tail.** -/
theorem validate_tail_iff :
    (∃ s, validateExactW64PcmInner file expected.toW64PcmFormatExpectation (some expected.sampleFrames.toNat) false true = .ok s) ↔
      (∃ s, validateExactW64Pcm file expected = .ok s) ∨
        ∃ n s, validateExactW64Pcm (withoutTail file n) expected = .ok s ∧ s.dataEnd + n = file.length ∧
          allZero (file.drop s.dataEnd) = true := by
  constructor
  · intro h
    obtain ⟨hsupported, chunks, hfile, hcount, hexact⟩ := validate_iff.1 h
    have hlt := (length_lt_of_isW64 hfile).1
    obtain ⟨body, hbody, -, hlaid⟩ := hfile
    rcases hlaid.tail_cases with hlaid | ⟨pre, c, zeros, rfl, hdata, hzeros, rfl⟩
    · exact .inl (validate_iff.2 ⟨hsupported, chunks, ⟨body, hbody, hlt, hlaid⟩, hcount, hexact⟩)
    · have htotal := congrArg List.length hbody
      simp only [List.length_append, length_rootBytes] at htotal
      obtain rfl : file = withTail pre c zeros := by
        rw [withTail, hbody, show file.length = 40 + (paddedBytes pre).length + c.bytes.length + zeros.length by omega]
      have hend := length_endingWith pre c
      obtain ⟨s, hvalid, hdataEnd⟩ := validate_endingWith hsupported hcount (by omega) hdata hexact
      refine .inr ⟨zeros.length, s, ?_, ?_, ?_⟩
      · rw [withoutTail_withTail hlt]
        exact hvalid
      · rw [hdataEnd, hend, length_withTail]
      · rw [hdataEnd, hend, withTail, ← List.append_assoc (paddedBytes pre), ← List.append_assoc (rootBytes _), List.drop_left' ?_]
        · exact hzeros
        · simp only [List.length_append, length_rootBytes, Nat.add_assoc]
  · rintro (⟨s, h⟩ | ⟨n, s, h, hend, hzeros⟩)
    · obtain ⟨hsupported, chunks, ⟨body, hbody, hlt, hlaid⟩, hcount, hexact⟩ := validate_iff.1 ⟨s, h⟩
      exact validate_iff.2 ⟨hsupported, chunks, ⟨body, hbody, hlt, hlaid.allowing true⟩, hcount, hexact⟩
    · obtain ⟨hsupported, -⟩ := validate_sound h
      obtain ⟨pre, c, post, seen, padding, hfile, hdata, hnotes, hcontract, -, -, -, hlast⟩ := dataChunk_of_validate h
      have hexact := exact_of_contract hsupported hnotes hcontract
      have hcount := hnotes.chunkCount (by decide)
      have h40 : 40 ≤ (withoutTail file n).length := by
        obtain ⟨body, hbody, -⟩ := id hfile
        have := congrArg List.length hbody
        rw [List.length_append, length_rootBytes] at this
        omega
      obtain hlength := (length_withoutTail_le file n).resolve_right (by omega)
      have hdataEnd : s.dataEnd = (withoutTail file n).length := by omega
      obtain ⟨rfl, hsame⟩ := hlast hdataEnd
      obtain ⟨hlt, zeros, hwith, hdrop⟩ := eq_withTail hsame (by rw [← hsame]; omega) (by rw [← hsame]; exact (length_lt_of_isW64 hfile).1)
      rw [hdataEnd, hsame, ← hdrop] at hzeros
      rw [hwith] at hlt ⊢
      exact validate_iff.2 ⟨hsupported, pre ++ [c], isW64_withTail hlt hdata hzeros, by rwa [unseen, Nat.zero_add] at hcount, hexact⟩

/-! ## Both validators -/

/-- **What the two validators accept.** The exact one accepts the files of the grammar with fewer than `2 ^ 32` chunks, for the expectations
that it supports. The SSRC one accepts a file when the exact one accepts it, or accepts it without the zeros that end it behind
its data. -/
theorem validators_accept (file : List UInt8) (expected : W64PcmExpectation) :
    ((∃ s, validateExactW64Pcm file expected = .ok s) ↔ Supported expected.toW64PcmFormatExpectation ∧
      ∃ chunks, IsW64 false chunks file ∧ chunks.length < 2 ^ 32 ∧ Exact expected chunks) ∧
    ((∃ s, validateSsrcW64Pcm file expected = .ok s) ↔ (∃ s, validateExactW64Pcm file expected = .ok s) ∨
      ∃ n s, validateExactW64Pcm (withoutTail file n) expected = .ok s ∧ s.dataEnd + n = file.length ∧ allZero (file.drop s.dataEnd) = true) := by
  refine ⟨validate_iff, ?_⟩
  rw [validateSsrcW64Pcm]
  split
  · rename_i s hexact
    exact ⟨fun _ => .inl ⟨s, hexact⟩, fun _ => ⟨s, rfl⟩⟩
  · rename_i hexact
    rw [← validate_tail_iff]
    split
    · rename_i s hssrc
      exact ⟨fun _ => ⟨s, hssrc⟩, fun _ => ⟨s, rfl⟩⟩
    · rename_i hssrc
      constructor
      · rintro ⟨_, ⟨⟩⟩
      · rintro ⟨s, h⟩
        rw [hssrc] at h
        cases h

/-- An expectation at a sample rate of zero. -/
def rateZero : W64PcmExpectation := ⟨⟨0, 1, 8, .signedInteger⟩, 0⟩

def rateZeroChunks : List Chunk := [⟨w64FmtGuid, formatBytes 1 rateZero.toW64PcmFormatExpectation [], length_w64FmtGuid⟩, ⟨w64DataGuid, [], length_w64DataGuid⟩]

def rateZeroFile : List UInt8 := rootBytes 104 ++ paddedBytes rateZeroChunks

/-- **A file of the grammar that is not accepted**: the validator refuses a sample rate of zero before it looks at the file. -/
theorem rateZero_refused : (∃ chunks, IsW64 false chunks rateZeroFile ∧ Exact rateZero chunks) ∧
    ¬ ∃ s, validateExactW64Pcm rateZeroFile rateZero = .ok s := by
  have hlength : rateZeroFile.length = 104 := by decide
  have hbody : paddedBytes rateZeroChunks = paddedBytes rateZeroChunks ++ [] := (List.append_nil _).symm
  refine ⟨⟨rateZeroChunks, ⟨paddedBytes rateZeroChunks, by rw [hlength]; rfl, by rw [hlength]; decide, ?_⟩, ⟨_, rfl, .inl rfl⟩, ⟨_, rfl, rfl⟩,
    .inr ⟨rfl, rfl⟩⟩, ?_⟩
  · rw [hbody]
    exact Laid.join .nil rateZeroChunks
  · intro h
    exact (validate_iff.1 h).1.rate rfl

end Wave64
