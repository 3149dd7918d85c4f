import Tonepoet.Wave64.Chunks

/-!
# What the Wave64 validator accepts

A file is accepted when it is a root and a layout of chunks of which one is the expected format, one is data of the
expected length, and at most one says the number of frames.
-/

namespace Wave64

open Rust ByteFile

/-! ## The grammar -/

def W64PcmFormatExpectation.blockAlign (expected : W64PcmFormatExpectation) : ℕ := expected.channels.toNat * (expected.bitsPerSample.toNat / 8)

def W64PcmFormatExpectation.byteRate (expected : W64PcmFormatExpectation) : ℕ := expected.sampleRateHz.toNat * expected.blockAlign

/-- The expectations that the validator works with. -/
structure Supported (expected : W64PcmFormatExpectation) : Prop where
  rate : expected.sampleRateHz ≠ 0
  channels : expected.channels ≠ 0
  width : supportedWidth expected.encoding expected.bitsPerSample = true
  blockAlign : expected.blockAlign < 2 ^ 16
  byteRate : expected.byteRate < 2 ^ 32

def formatTag : W64SampleEncoding → ℕ
  | .signedInteger => 0x0001
  | .floatingPoint => 0x0003

def subformat : W64SampleEncoding → List UInt8
  | .signedInteger => ksdataformatSubtypePcm
  | .floatingPoint => ksdataformatSubtypeIeeeFloat

/-- The fields of a format chunk under a tag, and what follows them. -/
def formatBytes (tag : ℕ) (expected : W64PcmFormatExpectation) (rest : List UInt8) : List UInt8 :=
  leBytes 2 tag ++ (leBytes 2 expected.channels.toNat ++ (leBytes 4 expected.sampleRateHz.toNat ++ (leBytes 4 expected.byteRate ++
    (leBytes 2 expected.blockAlign ++ (leBytes 2 expected.bitsPerSample.toNat ++ rest)))))

/-- The format chunks that say what is expected: the plain one, and the extensible one with any mask of as many speakers. -/
def FormatPayload (expected : W64PcmFormatExpectation) (payload : List UInt8) : Prop :=
  payload = formatBytes (formatTag expected.encoding) expected [] ∨
    ∃ mask < 2 ^ 32, (mask = 0 ∨ countOnes mask = expected.channels.toNat) ∧ payload = formatBytes 0xfffe expected
      (leBytes 2 22 ++ (leBytes 2 expected.bitsPerSample.toNat ++ (leBytes 4 mask ++ subformat expected.encoding)))

/-- The payloads of the chunks with a GUID. -/
def payloads (guid : List UInt8) (chunks : List Chunk) : List (List UInt8) := (chunks.filter fun c => c.guid = guid).map Chunk.payload

/-- A root header whose size is that of the file. -/
def rootBytes (size : ℕ) : List UInt8 := w64RiffGuid ++ (leBytes 8 size ++ w64WaveGuid)

/-- A file of chunks. -/
def IsW64 (ssrc : Bool) (chunks : List Chunk) (file : List UInt8) : Prop :=
  ∃ body, file = rootBytes file.length ++ body ∧ file.length < 2 ^ 64 ∧ Laid ssrc chunks body

/-- The chunks of a file with the expected format, frames and fact. -/
structure Exact (expected : W64PcmExpectation) (chunks : List Chunk) : Prop where
  format : ∃ payload, payloads w64FmtGuid chunks = [payload] ∧ FormatPayload expected.toW64PcmFormatExpectation payload
  data : ∃ payload, payloads w64DataGuid chunks = [payload] ∧ payload.length = expected.sampleFrames.toNat * expected.blockAlign
  fact : payloads w64FactGuid chunks = [leBytes 8 expected.sampleFrames.toNat] ∨
    expected.encoding = .signedInteger ∧ payloads w64FactGuid chunks = []

/-! ## Fields -/

section
variable {w n offset width : ℕ} {bytes rest : List UInt8}

theorem field_skip (h : w ≤ offset) : field (leBytes w n ++ rest) offset width = field rest (offset - w) width := by
  obtain ⟨k, rfl⟩ := Nat.exists_eq_add_of_le h
  rw [field, field, Nat.add_sub_cancel_left, ← List.drop_drop, List.drop_left' (length_leBytes w n)]

theorem field_here (h : n < 256 ^ w) : field (leBytes w n ++ rest) 0 w = n := by
  rw [field, List.drop_zero, List.take_left' (length_leBytes w n), ofLe_leBytes h]

/-- The bytes of a field, and what follows. -/
theorem leBytes_field (bytes : List UInt8) (offset width : ℕ) (h : offset + width ≤ bytes.length) :
    bytes.drop offset = leBytes width (field bytes offset width) ++ bytes.drop (offset + width) := by
  have hwidth : ((bytes.drop offset).take width).length = width := by
    rw [List.length_take, List.length_drop]
    omega
  have hfield : leBytes width (field bytes offset width) = (bytes.drop offset).take width := by
    have hbytes := leBytes_ofLe ((bytes.drop offset).take width)
    rw [hwidth] at hbytes
    exact hbytes
  rw [hfield, ← List.drop_drop, List.take_append_drop]

theorem ofLe_lt (bytes : List UInt8) : ofLe bytes < 256 ^ bytes.length := by
  induction bytes with
  | nil => exact Nat.one_pos
  | cons b bytes ih =>
    have := b.toNat_lt
    rw [ofLe, List.length_cons, pow_succ]
    omega

theorem field_lt (bytes : List UInt8) (offset width : ℕ) : field bytes offset width < 256 ^ width := by
  refine (ofLe_lt _).trans_le (Nat.pow_le_pow_right (by decide) ?_)
  exact List.length_take_le _ _

end

theorem require_eq_ok {p : Prop} [Decidable p] {message : String} : require p message = .ok () ↔ p := by
  rw [require]
  split <;> simp_all

/-! ## The format chunk -/

variable {expected : W64PcmFormatExpectation}

theorem Supported.whole (h : Supported expected) : expected.bitsPerSample.toNat % 8 = 0 ∧ 8 ≤ expected.bitsPerSample.toNat := by
  have hwidth := h.width
  cases hencoding : expected.encoding <;> rw [hencoding] at hwidth <;>
    simp only [supportedWidth, Bool.or_eq_true, beq_iff_eq] at hwidth
  · rcases hwidth with ((hw | hw) | hw) | hw <;> rw [hw] <;> decide
  · rcases hwidth with hw | hw <;> rw [hw] <;> decide

theorem length_formatBytes (tag : ℕ) (expected : W64PcmFormatExpectation) (rest : List UInt8) :
    (formatBytes tag expected rest).length = 16 + rest.length := by
  simp only [formatBytes, List.length_append, length_leBytes]
  omega

theorem checkFormat_eq_ok {format : ParsedFormat} {blockAlign byteRate : ℕ} :
    checkFormat format expected blockAlign byteRate = .ok () ↔
      format.encoding = expected.encoding ∧ format.channels = expected.channels.toNat ∧ format.sampleRateHz = expected.sampleRateHz.toNat ∧
        format.bitsPerSample = expected.bitsPerSample.toNat ∧ format.validBitsPerSample = expected.bitsPerSample.toNat ∧
          (∀ mask ∈ format.channelMask, mask = 0 ∨ countOnes mask = expected.channels.toNat) ∧ format.blockAlign = blockAlign ∧
            format.byteRate = byteRate := by
  simp only [checkFormat, require_bind_eq_ok, require_eq_ok]

theorem parseExtensible_eq_ok {bytes : List UInt8} {payloadBytes channels bits : ℕ} {r : W64SampleEncoding × ℕ × Option ℕ} :
    parseExtensible bytes payloadBytes channels bits = .ok r ↔
      (payloadBytes = 40 ∧ 40 ≤ bytes.length) ∧ field bytes 16 2 = 22 ∧ (field bytes 18 2 ≠ 0 ∧ field bytes 18 2 ≤ bits) ∧
        (field bytes 20 4 = 0 ∨ countOnes (field bytes 20 4) = channels) ∧
          ∃ encoding, (bytes.drop 24).take 16 = subformat encoding ∧ r = (encoding, field bytes 18 2, some (field bytes 20 4)) := by
  simp only [parseExtensible, require_bind_eq_ok]
  refine and_congr_right fun _ => and_congr_right fun _ => and_congr_right fun _ => and_congr_right fun _ => ?_
  have hne : ksdataformatSubtypePcm ≠ ksdataformatSubtypeIeeeFloat := by decide
  split
  · rename_i hpcm
    constructor
    · rintro ⟨⟩
      exact ⟨.signedInteger, hpcm, rfl⟩
    · rintro ⟨encoding, hsub, rfl⟩
      cases encoding with
      | signedInteger => rfl
      | floatingPoint => exact absurd (hpcm.symm.trans hsub) hne
  split
  · rename_i hpcm hfloat
    constructor
    · rintro ⟨⟩
      exact ⟨.floatingPoint, hfloat, rfl⟩
    · rintro ⟨encoding, hsub, rfl⟩
      cases encoding with
      | signedInteger => exact absurd hsub hpcm
      | floatingPoint => rfl
  · rename_i hpcm hfloat
    constructor
    · intro h
      cases h
    rintro ⟨encoding, hsub, -⟩
    cases encoding with
    | signedInteger => exact absurd hsub hpcm
    | floatingPoint => exact absurd hsub hfloat

/-- The fields that a parsed format has to have read. -/
theorem eq_formatBytes {payload : List UInt8} {tag : ℕ} (hlength : 16 ≤ payload.length) (htag : field payload 0 2 = tag)
    (hchannels : field payload 2 2 = expected.channels.toNat) (hrate : field payload 4 4 = expected.sampleRateHz.toNat)
    (hbyteRate : field payload 8 4 = expected.byteRate) (hblockAlign : field payload 12 2 = expected.blockAlign)
    (hbits : field payload 14 2 = expected.bitsPerSample.toNat) : payload = formatBytes tag expected (payload.drop 16) := by
  rw [formatBytes, ← htag, ← hchannels, ← hrate, ← hbyteRate, ← hblockAlign, ← hbits]
  rw [← leBytes_field payload 14 2 (by omega), ← leBytes_field payload 12 2 (by omega), ← leBytes_field payload 8 4 (by omega),
    ← leBytes_field payload 4 4 (by omega), ← leBytes_field payload 2 2 (by omega), ← leBytes_field payload 0 2 (by omega),
    List.drop_zero]

theorem parseEncoding_eq_ok {bytes : List UInt8} {payloadBytes tag channels bits : ℕ} {r : W64SampleEncoding × ℕ × Option ℕ} :
    parseEncoding bytes payloadBytes tag channels bits = .ok r ↔
      (∃ encoding, tag = formatTag encoding ∧ payloadBytes = 16 ∧ r = (encoding, bits, none)) ∨
        tag = 0xfffe ∧ parseExtensible bytes payloadBytes channels bits = .ok r := by
  rw [parseEncoding]
  split
  · rename_i htag
    rw [require_bind_eq_ok]
    constructor
    · rintro ⟨hlength, ⟨⟩⟩
      exact .inl ⟨.signedInteger, htag, hlength, rfl⟩
    · rintro (⟨encoding, htag', hlength, rfl⟩ | ⟨htag', -⟩)
      · cases encoding with
        | signedInteger => exact ⟨hlength, rfl⟩
        | floatingPoint => exact absurd (htag.symm.trans htag') (by decide)
      · exact absurd (htag.symm.trans htag') (by decide)
  split
  · rename_i htag
    rw [require_bind_eq_ok]
    constructor
    · rintro ⟨hlength, ⟨⟩⟩
      exact .inl ⟨.floatingPoint, htag, hlength, rfl⟩
    · rintro (⟨encoding, htag', hlength, rfl⟩ | ⟨htag', -⟩)
      · cases encoding with
        | signedInteger => exact absurd (htag.symm.trans htag') (by decide)
        | floatingPoint => exact ⟨hlength, rfl⟩
      · exact absurd (htag.symm.trans htag') (by decide)
  · rename_i hpcm hfloat
    have hplain : ¬ ∃ encoding, tag = formatTag encoding ∧ payloadBytes = 16 ∧ r = (encoding, bits, none) := by
      rintro ⟨encoding, htag, -⟩
      cases encoding with
      | signedInteger => exact hpcm htag
      | floatingPoint => exact hfloat htag
    rw [or_iff_right hplain]
    split
    · rename_i htag
      exact (and_iff_right htag).symm
    · rename_i htag
      refine ⟨fun h => ?_, fun h => absurd h.1 htag⟩
      cases h

theorem parsePayload_eq_ok {payload : List UInt8} {format : ParsedFormat} :
    parsePayload payload = .ok format ↔ 16 ≤ payload.length ∧ ∃ r, parseEncoding (payload.take 40) payload.length
      (field (payload.take 40) 0 2) (field (payload.take 40) 2 2) (field (payload.take 40) 14 2) = .ok r ∧
        format = ⟨r.1, field (payload.take 40) 2 2, field (payload.take 40) 4 4, field (payload.take 40) 8 4,
          field (payload.take 40) 12 2, field (payload.take 40) 14 2, r.2.1, r.2.2⟩ := by
  rw [parsePayload, require_bind_eq_ok, parseFormatBytes, bind_eq_ok]
  refine and_congr_right fun _ => exists_congr fun r => and_congr_right fun _ => ?_
  constructor
  · rintro ⟨⟩
    rfl
  · rintro rfl
    rfl

theorem formatTag_lt (encoding : W64SampleEncoding) : formatTag encoding < 256 ^ 2 := by cases encoding <;> decide

theorem length_subformat (encoding : W64SampleEncoding) : (subformat encoding).length = 16 := by cases encoding <;> rfl

/-- The fields of the format chunks of the grammar. -/
theorem field_formatBytes (hsupported : Supported expected) {tag : ℕ} (htag : tag < 256 ^ 2) (rest : List UInt8) :
    field (formatBytes tag expected rest) 0 2 = tag ∧ field (formatBytes tag expected rest) 2 2 = expected.channels.toNat ∧
      field (formatBytes tag expected rest) 4 4 = expected.sampleRateHz.toNat ∧ field (formatBytes tag expected rest) 8 4 = expected.byteRate ∧
        field (formatBytes tag expected rest) 12 2 = expected.blockAlign ∧
          field (formatBytes tag expected rest) 14 2 = expected.bitsPerSample.toNat := by
  have hchannels : expected.channels.toNat < 256 ^ 2 := expected.channels.toNat_lt
  have hrate : expected.sampleRateHz.toNat < 256 ^ 4 := expected.sampleRateHz.toNat_lt
  have hbits : expected.bitsPerSample.toNat < 256 ^ 2 := expected.bitsPerSample.toNat_lt
  have hblockAlign : expected.blockAlign < 256 ^ 2 := hsupported.blockAlign
  have hbyteRate : expected.byteRate < 256 ^ 4 := hsupported.byteRate
  refine ⟨?_, ?_, ?_, ?_, ?_, ?_⟩
  all_goals simp (disch := first | assumption | decide) only [formatBytes, field_skip, field_here, Nat.sub_self, Nat.reduceSub]

theorem drop_formatBytes (tag : ℕ) (expected : W64PcmFormatExpectation) (rest : List UInt8) :
    (formatBytes tag expected rest).drop 16 = rest := by
  have hfront : ∀ tail, formatBytes tag expected tail = formatBytes tag expected [] ++ tail := by
    intro tail
    simp only [formatBytes, List.append_assoc, List.nil_append]
  rw [hfront]
  exact List.drop_left' (length_formatBytes tag expected [])

/-- **The format chunks that are accepted are the ones of the grammar.** -/
theorem formatPayload_iff (hsupported : Supported expected) {payload : List UInt8} :
    (∃ format, parsePayload payload = .ok format ∧ checkFormat format expected expected.blockAlign expected.byteRate = .ok ()) ↔
      FormatPayload expected payload := by
  have hbits : expected.bitsPerSample.toNat < 256 ^ 2 := expected.bitsPerSample.toNat_lt
  simp only [parsePayload_eq_ok, parseEncoding_eq_ok, checkFormat_eq_ok]
  constructor
  · rintro ⟨_, ⟨hlength, ⟨encoding, valid, mask⟩, hencoding, rfl⟩, rfl, hchannels, hrate, hstored, hvalid, hmask, hblockAlign, hbyteRate⟩
    dsimp only at *
    rcases hencoding with ⟨_, htag, h16, hr⟩ | ⟨htag, hextensible⟩
    · obtain ⟨rfl, -⟩ := Prod.mk.inj hr
      rw [List.take_of_length_le (by omega)] at *
      have heq := eq_formatBytes hlength htag hchannels hrate hbyteRate hblockAlign hstored
      rw [List.drop_eq_nil_of_le h16.le] at heq
      exact .inl heq
    · obtain ⟨⟨h40, -⟩, hextension, -, -, _, hsub, hr⟩ := parseExtensible_eq_ok.1 hextensible
      obtain ⟨hencoding, hrest⟩ := Prod.mk.inj hr
      obtain ⟨rfl, rfl⟩ := Prod.mk.inj hrest
      rw [List.take_of_length_le h40.le] at *
      have heq := eq_formatBytes hlength htag hchannels hrate hbyteRate hblockAlign hstored
      refine .inr ⟨field payload 20 4, field_lt payload 20 4, hmask _ rfl, ?_⟩
      rw [leBytes_field payload 16 2 (by omega), leBytes_field payload 18 2 (by omega),
        leBytes_field payload 20 4 (by omega), hextension, hvalid] at heq
      rw [hencoding, ← hsub, List.take_of_length_le (by rw [List.length_drop]; omega)]
      exact heq
  · rintro (rfl | ⟨mask, hmaskLt, hmask, rfl⟩)
    · obtain ⟨htag, hchannels, hrate, hbyteRate, hblockAlign, hstored⟩ := field_formatBytes hsupported (formatTag_lt expected.encoding) []
      have hlength := length_formatBytes (formatTag expected.encoding) expected []
      rw [List.take_of_length_le (by rw [hlength]; decide), htag, hchannels, hrate, hbyteRate, hblockAlign, hstored]
      exact ⟨_, ⟨hlength.ge, _, .inl ⟨_, rfl, hlength, rfl⟩, rfl⟩, rfl, rfl, rfl, rfl, rfl, nofun, rfl, rfl⟩
    · have htagLt : (0xfffe : ℕ) < 256 ^ 2 := by decide
      have hmaskLt : mask < 256 ^ 4 := hmaskLt
      have h22 : (22 : ℕ) < 256 ^ 2 := by decide
      generalize hrest : leBytes 2 22 ++ (leBytes 2 expected.bitsPerSample.toNat ++ (leBytes 4 mask ++ subformat expected.encoding)) = rest
      have hrestLength : rest.length = 24 := by
        rw [← hrest]
        simp only [List.length_append, length_leBytes, length_subformat]
      obtain ⟨htag, hchannels, hrate, hbyteRate, hblockAlign, hstored⟩ := field_formatBytes hsupported htagLt rest
      have hlength : (formatBytes 0xfffe expected rest).length = 40 := by rw [length_formatBytes, hrestLength]
      have hfields : field (formatBytes 0xfffe expected rest) 16 2 = 22 ∧ field (formatBytes 0xfffe expected rest) 18 2 = expected.bitsPerSample.toNat ∧
          field (formatBytes 0xfffe expected rest) 20 4 = mask := by
        rw [← hrest]
        refine ⟨?_, ?_, ?_⟩
        all_goals simp (disch := first | assumption | decide) only [formatBytes, field_skip, field_here, Nat.sub_self, Nat.reduceSub]
      have hsub : ((formatBytes 0xfffe expected rest).drop 24).take 16 = subformat expected.encoding := by
        rw [show (24 : ℕ) = 16 + 8 from rfl, ← List.drop_drop, drop_formatBytes, ← hrest]
        rw [← List.append_assoc, ← List.append_assoc, List.drop_left' (by simp only [List.length_append, length_leBytes]),
          List.take_of_length_le (length_subformat _).le]
      rw [List.take_of_length_le hlength.le, htag, hchannels, hrate, hbyteRate, hblockAlign, hstored]
      refine ⟨_, ⟨by omega, (expected.encoding, expected.bitsPerSample.toNat, some mask), .inr ⟨rfl, ?_⟩, rfl⟩, rfl, rfl, rfl, rfl, rfl, ?_, rfl, rfl⟩
      · rw [parseExtensible_eq_ok, hfields.1, hfields.2.1, hfields.2.2]
        have hwidth := hsupported.whole
        exact ⟨⟨hlength, hlength.ge⟩, rfl, ⟨by omega, le_rfl⟩, hmask, _, hsub, rfl⟩
      · rintro _ ⟨⟩
        exact hmask

/-! ## What the chunks show -/

/-- What has been seen of one kind of chunk. -/
def Shows {β : Type} (decode : List UInt8 → β → Prop) (seen : Option (ℕ × β)) : List (List UInt8) → Prop
  | [] => seen = none
  | [payload] => ∃ offset b, seen = some (offset, b) ∧ decode payload b
  | _ :: _ :: _ => False

def ShowsFormat (seen : Seen) (ps : List (List UInt8)) : Prop := Shows (fun p f => parsePayload p = .ok f) seen.format ps
def ShowsFact (seen : Seen) (ps : List (List UInt8)) : Prop := Shows (fun p n => p.length = 8 ∧ ofLe p = n) seen.fact ps
def ShowsData (seen : Seen) (ps : List (List UInt8)) : Prop := Shows (fun p n => p.length = n) seen.data ps

section
variable {β : Type} {decode : List UInt8 → β → Prop} {seen : Option (ℕ × β)} {ps : List (List UInt8)}

theorem Shows.eq_nil (h : Shows decode seen ps) (hnone : seen = none) : ps = [] := by
  match ps, h with
  | [], _ => rfl
  | [_], ⟨_, _, hsome, _⟩ => rw [hnone] at hsome; cases hsome

theorem Shows.none_iff (h : Shows decode seen ps) : seen = none ↔ ps = [] := by
  refine ⟨h.eq_nil, ?_⟩
  rintro rfl
  exact h

theorem payloads_cons (guid : List UInt8) (c : Chunk) (chunks : List Chunk) :
    payloads guid (c :: chunks) = (if c.guid = guid then [c.payload] else []) ++ payloads guid chunks := by
  rw [payloads, List.filter_cons]
  split <;> rename_i h
  · rw [if_pos (of_decide_eq_true h)]
    rfl
  · rw [if_neg (fun heq => h (decide_eq_true heq))]
    rfl

end

/-- All that has been seen. -/
structure ShowsAll (seen : Seen) (formats facts datas : List (List UInt8)) : Prop where
  format : ShowsFormat seen formats
  fact : ShowsFact seen facts
  data : ShowsData seen datas

/-- What a chunk adds to each kind. -/
def shown (guid : List UInt8) (c : Chunk) : List (List UInt8) := if c.guid = guid then [c.payload] else []

variable {seen seen' : Seen} {c : Chunk} {offset : ℕ} {formats facts datas : List (List UInt8)}

theorem ShowsAll.note (h : ShowsAll seen formats facts datas) (hnotes : Notes c offset seen seen') :
    ShowsAll seen' (formats ++ shown w64FmtGuid c) (facts ++ shown w64FactGuid c) (datas ++ shown w64DataGuid c) := by
  have hfact := fmt_ne_fact
  have hdata := fmt_ne_data
  have hboth := fact_ne_data
  cases hnotes with
  | format hguid hnew hparse =>
    obtain rfl := h.format.eq_nil hnew
    rw [shown, shown, shown, hguid, if_pos rfl, if_neg hfact, if_neg hdata, List.append_nil, List.append_nil]
    exact ⟨⟨_, _, rfl, hparse⟩, h.fact, h.data⟩
  | fact hguid hnew hlength =>
    obtain rfl := h.fact.eq_nil hnew
    rw [shown, shown, shown, hguid, if_pos rfl, if_neg hfact.symm, if_neg hboth, List.append_nil, List.append_nil]
    exact ⟨h.format, ⟨_, _, rfl, hlength, rfl⟩, h.data⟩
  | data hguid hnew =>
    obtain rfl := h.data.eq_nil hnew
    rw [shown, shown, shown, hguid, if_pos rfl, if_neg hdata.symm, if_neg hboth.symm, List.append_nil, List.append_nil]
    exact ⟨h.format, h.fact, ⟨_, _, rfl, rfl⟩⟩
  | other hfmt hfct hdat =>
    rw [shown, shown, shown, if_neg hfmt, if_neg hfct, if_neg hdat, List.append_nil, List.append_nil, List.append_nil]
    exact ⟨h.format, h.fact, h.data⟩

theorem ShowsAll.notesAll {chunks : List Chunk} (h : ShowsAll seen formats facts datas) (hnotes : NotesAll offset seen chunks seen') :
    ShowsAll seen' (formats ++ payloads w64FmtGuid chunks) (facts ++ payloads w64FactGuid chunks) (datas ++ payloads w64DataGuid chunks) := by
  induction hnotes generalizing formats facts datas with
  | nil => simpa [payloads] using h
  | cons _ hc _ ih =>
    have hrest := ih (h.note hc)
    rw [payloads_cons, payloads_cons, payloads_cons, ← List.append_assoc, ← List.append_assoc, ← List.append_assoc]
    exact hrest

theorem NotesAll.chunkCount {chunks : List Chunk} (hnotes : NotesAll offset seen chunks seen') (hseen : seen.chunkCount < 2 ^ 32) :
    seen.chunkCount + chunks.length < 2 ^ 32 := by
  induction hnotes with
  | nil => exact hseen
  | cons hcount hc _ ih =>
    have hnext : ∀ {seen seen' : Seen} {c : Chunk} {offset : ℕ}, Notes c offset seen seen' → seen'.chunkCount = seen.chunkCount + 1 :=
      fun hc => by cases hc <;> rfl
    have hrest := ih (by rw [hnext hc]; exact hcount)
    rw [hnext hc] at hrest
    rw [List.length_cons]
    omega

/-- Chunks of which no kind shows up twice, and that can be read, are gone through. -/
theorem exists_notesAll : ∀ {chunks : List Chunk} {seen : Seen} (offset : ℕ) {formats facts datas : List (List UInt8)},
    ShowsAll seen formats facts datas → seen.chunkCount + chunks.length < 2 ^ 32 →
      (formats ++ payloads w64FmtGuid chunks).length ≤ 1 → (∀ p ∈ payloads w64FmtGuid chunks, ∃ f, parsePayload p = .ok f) →
        (facts ++ payloads w64FactGuid chunks).length ≤ 1 → (∀ p ∈ payloads w64FactGuid chunks, p.length = 8) →
          (datas ++ payloads w64DataGuid chunks).length ≤ 1 → ∃ seen', NotesAll offset seen chunks seen'
  | [], _, _, _, _, _, _, _, _, _, _, _, _ => ⟨_, .nil _ _⟩
  | c :: chunks, seen, offset, formats, facts, datas, h, hcount, hformats, hparse, hfacts, hlength, hdatas => by
    rw [payloads_cons] at hformats hparse hfacts hlength hdatas
    rw [List.length_cons] at hcount
    obtain ⟨seen', hc, hcount'⟩ : ∃ seen', Notes c offset seen seen' ∧ seen'.chunkCount = seen.chunkCount + 1 := by
      by_cases hfmt : c.guid = w64FmtGuid
      · rw [if_pos hfmt] at hformats hparse
        obtain ⟨f, hf⟩ := hparse c.payload (List.mem_append_left _ (List.mem_singleton_self _))
        refine ⟨_, .format hfmt (h.format.none_iff.2 ?_) hf, rfl⟩
        rw [← List.length_eq_zero_iff]
        simp only [List.length_append, List.length_singleton] at hformats
        omega
      by_cases hfct : c.guid = w64FactGuid
      · rw [if_pos hfct] at hfacts hlength
        refine ⟨_, .fact hfct (h.fact.none_iff.2 ?_) (hlength c.payload (List.mem_append_left _ (List.mem_singleton_self _))), rfl⟩
        rw [← List.length_eq_zero_iff]
        simp only [List.length_append, List.length_singleton] at hfacts
        omega
      by_cases hdat : c.guid = w64DataGuid
      · rw [if_pos hdat] at hdatas
        refine ⟨_, .data hdat (h.data.none_iff.2 ?_), rfl⟩
        rw [← List.length_eq_zero_iff]
        simp only [List.length_append, List.length_singleton] at hdatas
        omega
      · exact ⟨_, .other hfmt hfct hdat, rfl⟩
    rw [← List.append_assoc] at hformats hfacts hdatas
    obtain ⟨seen'', hrest⟩ := exists_notesAll (offset + c.bytes.length + c.padding.length) (h.note hc) (by omega) hformats
      (fun p hp => hparse p (List.mem_append_right _ hp)) hfacts (fun p hp => hlength p (List.mem_append_right _ hp)) hdatas
    exact ⟨seen'', .cons (by omega) hc hrest⟩

/-! ## The contract -/

theorem checkExpectation_eq_ok : checkExpectation expected = .ok () ↔
    expected.sampleRateHz ≠ 0 ∧ expected.channels ≠ 0 ∧ supportedWidth expected.encoding expected.bitsPerSample = true := by
  rw [checkExpectation, require_bind_eq_ok, require_bind_eq_ok]
  refine and_congr_right fun _ => and_congr_right fun _ => ?_
  dsimp only
  cases expected.encoding <;> exact require_eq_ok

theorem supported_iff : Supported expected ↔
    checkExpectation expected = .ok () ∧ expectedRates expected = .ok (expected.blockAlign, expected.byteRate) := by
  have hrates : ∀ hwidth : expected.bitsPerSample.toNat % 8 = 0 ∧ 8 ≤ expected.bitsPerSample.toNat,
      (expectedRates expected = .ok (expected.blockAlign, expected.byteRate) ↔ expected.blockAlign < 2 ^ 16 ∧ expected.byteRate < 2 ^ 32) := by
    intro hwidth
    have hround : (expected.bitsPerSample.toNat + 7) / 8 = expected.bitsPerSample.toNat / 8 := by omega
    simp only [expectedRates, require_bind_eq_ok, hround]
    constructor
    · rintro ⟨-, hblockAlign, hbyteRate, -⟩
      exact ⟨hblockAlign, hbyteRate⟩
    · rintro ⟨hblockAlign, hbyteRate⟩
      exact ⟨⟨by omega, hwidth.1⟩, hblockAlign, hbyteRate, rfl⟩
  rw [checkExpectation_eq_ok]
  constructor
  · intro h
    exact ⟨⟨h.rate, h.channels, h.width⟩, (hrates h.whole).2 ⟨h.blockAlign, h.byteRate⟩⟩
  · rintro ⟨⟨hrate, hchannels, hwidth⟩, h⟩
    have hwhole : expected.bitsPerSample.toNat % 8 = 0 ∧ 8 ≤ expected.bitsPerSample.toNat := by
      have hbits := h
      simp only [expectedRates, require_bind_eq_ok] at hbits
      omega
    obtain ⟨hblockAlign, hbyteRate⟩ := (hrates hwhole).1 h
    exact ⟨hrate, hchannels, hwidth, hblockAlign, hbyteRate⟩

theorem expectedRates_eq {rates : ℕ × ℕ} (hcheck : checkExpectation expected = .ok ()) (h : expectedRates expected = .ok rates) :
    Supported expected ∧ rates = (expected.blockAlign, expected.byteRate) := by
  have heq : rates = (expected.blockAlign, expected.byteRate) := by
    simp only [expectedRates, require_bind_eq_ok] at h
    obtain ⟨hbits, -, -, ⟨⟩⟩ := h
    have hround : (expected.bitsPerSample.toNat + 7) / 8 = expected.bitsPerSample.toNat / 8 := by omega
    rw [W64PcmFormatExpectation.byteRate, W64PcmFormatExpectation.blockAlign, hround]
  exact ⟨supported_iff.2 ⟨hcheck, heq ▸ h⟩, heq⟩

theorem length_rootBytes (size : ℕ) : (rootBytes size).length = 40 := by
  rw [rootBytes, List.length_append, List.length_append, length_leBytes]
  rfl

theorem checkRoot_eq_ok {file : List UInt8} :
    checkRoot file = .ok () ↔ file = rootBytes file.length ++ file.drop 40 ∧ file.length < 2 ^ 64 := by
  have hriff : w64RiffGuid.length = 16 := rfl
  have hwave : w64WaveGuid.length = 16 := rfl
  simp only [checkRoot, require_bind_eq_ok, readExactAt_bind_eq_ok, require_eq_ok, List.drop_zero]
  rw [rootHeaderBytes]
  constructor
  · rintro ⟨hle, -, hguid, hform, hsize⟩
    have hlt : file.length < 2 ^ 64 := by
      rw [← hsize]
      exact field_lt _ 16 8
    refine ⟨?_, hlt⟩
    have hroot : (file.take 40).length = 40 := by
      rw [List.length_take]
      omega
    have h8 := leBytes_field (file.take 40) 16 8 (by omega)
    rw [hsize] at h8
    have h24 : (file.take 40).drop (16 + 8) = w64WaveGuid := by
      have hwidth : ((file.take 40).drop 24).length ≤ 16 := by
        rw [List.length_drop]
        omega
      rw [← hform, List.take_of_length_le hwidth]
    rw [h24] at h8
    conv_lhs => rw [← List.take_append_drop 40 file, ← List.take_append_drop 16 (file.take 40), hguid, h8]
    rfl
  · rintro ⟨hfile, hlt⟩
    have hroot : file.take 40 = rootBytes file.length := by
      conv_lhs => rw [hfile]
      exact List.take_left' (length_rootBytes _)
    have hlength : 40 ≤ file.length := by
      have := congrArg List.length hroot
      rw [List.length_take, length_rootBytes] at this
      omega
    rw [hroot]
    refine ⟨hlength, by omega, List.take_left' hriff, ?_, ?_⟩
    · rw [rootBytes, ← List.append_assoc, List.drop_left' (by rw [List.length_append, hriff, length_leBytes]), List.take_of_length_le hwave.le]
    · rw [rootBytes, field, List.drop_left' hriff, List.take_left' (length_leBytes 8 _), ofLe_leBytes hlt]

theorem checkFrames_eq_ok {declaredDataBytes blockAlign n : ℕ} {frames : Option ℕ} {allow : Bool} :
    checkFrames declaredDataBytes blockAlign frames allow = .ok n ↔
      (∀ m ∈ frames, m * blockAlign ≤ usizeMax) ∧ (∀ m ∈ frames, declaredDataBytes = m * blockAlign) ∧
        (declaredDataBytes % blockAlign = 0 ∨ allow = true ∧ declaredDataBytes % blockAlign < 8) ∧
          (∀ m ∈ frames, declaredDataBytes / blockAlign = m) ∧ n = declaredDataBytes / blockAlign := by
  simp only [checkFrames, require_bind_eq_ok]
  refine and_congr_right fun _ => and_congr_right fun _ => and_congr_right fun _ => and_congr_right fun _ => ?_
  constructor
  · rintro ⟨⟩
    rfl
  · rintro rfl
    rfl

/-- What has been seen of the fact chunk agrees with the frames. -/
def FactAgrees (encoding : W64SampleEncoding) (fact : Option (ℕ × ℕ)) (frames : ℕ) : Prop :=
  (∃ offset, fact = some (offset, frames)) ∨ encoding = .signedInteger ∧ fact = none

theorem checkFact_eq_ok {encoding : W64SampleEncoding} {fact : Option (ℕ × ℕ)} {frames : ℕ} {r : Option ℕ} :
    checkFact encoding fact frames = .ok r ↔ FactAgrees encoding fact frames ∧ r = fact.map Prod.fst := by
  rw [FactAgrees]
  rcases fact with - | ⟨offset, n⟩ <;> cases encoding
  · constructor
    · rintro ⟨⟩
      exact ⟨.inr ⟨rfl, rfl⟩, rfl⟩
    · rintro ⟨-, rfl⟩
      rfl
  · refine ⟨nofun, ?_⟩
    rintro ⟨⟨_, ⟨⟩⟩ | ⟨⟨⟩, -⟩, -⟩
  all_goals
    rw [checkFact, require_bind_eq_ok]
    constructor
    · rintro ⟨rfl, ⟨⟩⟩
      exact ⟨.inl ⟨_, rfl⟩, rfl⟩
    · rintro ⟨⟨_, ⟨⟩⟩ | ⟨-, ⟨⟩⟩, rfl⟩
      exact ⟨rfl, rfl⟩

theorem checkContract_eq_ok {physical blockAlign byteRate : ℕ} {frames : Option ℕ} {allow : Bool} {t : Traversal} {s : W64ExactStructure} :
    checkContract physical expected blockAlign byteRate frames allow t = .ok s ↔
      t.offset = physical ∧ ∃ formatOffset format dataOffset dataBytes n, t.seen.format = some (formatOffset, format) ∧
        t.seen.data = some (dataOffset, dataBytes) ∧ checkFormat format expected blockAlign byteRate = .ok () ∧
          checkFrames dataBytes blockAlign frames allow = .ok n ∧ FactAgrees expected.encoding t.seen.fact n ∧
            s = ⟨physical, physical, t.seen.chunkCount, formatOffset, t.seen.fact.map Prod.fst, dataOffset, dataBytes, n,
              t.alignmentPaddingBytes⟩ := by
  simp only [checkContract, require_bind_eq_ok, orInvalid_bind_eq_ok]
  refine and_congr_right fun _ => ?_
  constructor
  · rintro ⟨⟨formatOffset, format⟩, hformat, ⟨dataOffset, dataBytes⟩, hdata, h⟩
    obtain ⟨⟨⟩, hcheck, h⟩ := bind_eq_ok.1 h
    obtain ⟨n, hframes, h⟩ := bind_eq_ok.1 h
    obtain ⟨fact, hfact, ⟨⟩⟩ := bind_eq_ok.1 h
    obtain ⟨hagrees, rfl⟩ := checkFact_eq_ok.1 hfact
    exact ⟨formatOffset, format, dataOffset, dataBytes, n, hformat, hdata, hcheck, hframes, hagrees, rfl⟩
  · rintro ⟨formatOffset, format, dataOffset, dataBytes, n, hformat, hdata, hcheck, hframes, hagrees, rfl⟩
    refine ⟨(formatOffset, format), hformat, (dataOffset, dataBytes), hdata, ?_⟩
    rw [hcheck, ok_bind, hframes, ok_bind, checkFact_eq_ok.2 ⟨hagrees, rfl⟩]
    rfl

/-- What has been seen before the first chunk. -/
def unseen : Seen := ⟨0, none, none, none⟩

/-- **What the validator has checked when it succeeds.** -/
theorem validate_sound {file : List UInt8} {frames : Option ℕ} {allow ssrc : Bool} {s : W64ExactStructure}
    (h : validateExactW64PcmInner file expected frames allow ssrc = .ok s) :
    Supported expected ∧ ∃ chunks t, IsW64 ssrc chunks file ∧ Laid ssrc chunks (file.drop 40) ∧ NotesAll 40 unseen chunks t.seen ∧
      checkContract file.length expected expected.blockAlign expected.byteRate frames allow t = .ok s := by
  simp only [validateExactW64PcmInner] at h
  obtain ⟨⟨⟩, hcheck, h⟩ := bind_eq_ok.1 h
  obtain ⟨⟨⟩, hroot, h⟩ := bind_eq_ok.1 h
  obtain ⟨rates, hrates, h⟩ := bind_eq_ok.1 h
  obtain ⟨t, htraverse, h⟩ := bind_eq_ok.1 h
  obtain ⟨hsupported, rfl⟩ := expectedRates_eq hcheck hrates
  obtain ⟨hfile, hlt⟩ := checkRoot_eq_ok.1 hroot
  have hlength : 40 ≤ file.length := by
    have := congrArg List.length hfile
    rw [List.length_append, length_rootBytes] at this
    omega
  obtain ⟨chunks, hlaid, hnotes⟩ := laid_of_traverse hlt htraverse (checkContract_eq_ok.1 h).1 hlength
  exact ⟨hsupported, chunks, t, ⟨file.drop 40, hfile, hlt, hlaid⟩, hlaid, hnotes, h⟩

/-- **What the validator goes through and accepts.** -/
theorem validate_complete (hsupported : Supported expected) {file : List UInt8} {frames : Option ℕ} {allow ssrc : Bool}
    {chunks : List Chunk} (hfile : IsW64 ssrc chunks file) {seen : Seen} (hnotes : NotesAll 40 unseen chunks seen)
    (hcontract : ∀ padding, ∃ s, checkContract file.length expected expected.blockAlign expected.byteRate frames allow
      ⟨file.length, seen, padding⟩ = .ok s) : ∃ s padding, validateExactW64PcmInner file expected frames allow ssrc = .ok s ∧
        checkContract file.length expected expected.blockAlign expected.byteRate frames allow ⟨file.length, seen, padding⟩ = .ok s := by
  obtain ⟨body, hbody, hlt, hlaid⟩ := hfile
  have hdrop : file.drop 40 = body := by
    rw [hbody]
    exact List.drop_left' (length_rootBytes _)
  have hlength : 40 ≤ file.length := by
    have := congrArg List.length hbody
    rw [List.length_append, length_rootBytes] at this
    omega
  obtain ⟨hcheck, hrates⟩ := supported_iff.1 hsupported
  obtain ⟨padding, htraverse⟩ := traverse_of_laid hlt hlaid (t := ⟨rootHeaderBytes, unseen, 0⟩) hdrop hlength rfl (Nat.zero_le _) hnotes
  obtain ⟨s, hs⟩ := hcontract padding
  refine ⟨s, padding, ?_, hs⟩
  rw [validateExactW64PcmInner, hcheck, ok_bind, checkRoot_eq_ok.2 ⟨by rw [hdrop]; exact hbody, hlt⟩, ok_bind, hrates, ok_bind]
  change (traverse file file.length ssrc ⟨rootHeaderBytes, unseen, 0⟩ >>= fun t => checkContract file.length expected expected.blockAlign
    expected.byteRate frames allow t) = .ok s
  rw [htraverse, ok_bind, hs]

/-! ## Acceptance -/

theorem showsAll_unseen : ShowsAll unseen [] [] [] := ⟨rfl, rfl, rfl⟩

theorem Laid.length_le {ssrc : Bool} {chunks : List Chunk} {bytes : List UInt8} (h : Laid ssrc chunks bytes) {c : Chunk} (hc : c ∈ chunks) :
    c.payload.length ≤ bytes.length := by
  induction h with
  | nil => cases hc
  | last d =>
    obtain rfl := List.mem_singleton.1 hc
    rw [c.length_bytes]
    omega
  | tail d =>
    obtain rfl := List.mem_singleton.1 hc
    rw [List.length_append, c.length_bytes]
    omega
  | cons d _ ih =>
    rw [List.length_append, List.length_append, d.length_bytes]
    rcases List.mem_cons.1 hc with rfl | hc
    · omega
    · have := ih hc
      omega

/-- What is accepted for a number of frames is accepted by an inspection without it. -/
theorem checkContract_inspect {physical blockAlign byteRate n : ℕ} {t : Traversal} {s : W64ExactStructure}
    (h : checkContract physical expected blockAlign byteRate (some n) false t = .ok s) :
    checkContract physical expected blockAlign byteRate none true t = .ok s := by
  rw [checkContract_eq_ok] at h ⊢
  obtain ⟨hend, formatOffset, format, dataOffset, dataBytes, m, hformat, hdata, hcheck, hframes, hfact, hs⟩ := h
  obtain ⟨-, -, hmod, -, hm⟩ := checkFrames_eq_ok.1 hframes
  exact ⟨hend, formatOffset, format, dataOffset, dataBytes, m, hformat, hdata, hcheck,
    checkFrames_eq_ok.2 ⟨nofun, nofun, .inl (hmod.resolve_right (fun h => nomatch h.1)), nofun, hm⟩, hfact, hs⟩

theorem inspect_of_validate {file : List UInt8} {ssrc : Bool} {n : ℕ} {s : W64ExactStructure}
    (h : validateExactW64PcmInner file expected (some n) false ssrc = .ok s) : validateExactW64PcmInner file expected none true ssrc = .ok s := by
  simp only [validateExactW64PcmInner] at h ⊢
  obtain ⟨⟨⟩, hcheck, h⟩ := bind_eq_ok.1 h
  obtain ⟨⟨⟩, hroot, h⟩ := bind_eq_ok.1 h
  obtain ⟨rates, hrates, h⟩ := bind_eq_ok.1 h
  obtain ⟨t, htraverse, h⟩ := bind_eq_ok.1 h
  rw [hcheck, ok_bind, hroot, ok_bind, hrates, ok_bind, htraverse, ok_bind, checkContract_inspect h]

theorem mem_payloads {guid payload : List UInt8} {chunks : List Chunk} (h : payload ∈ payloads guid chunks) :
    ∃ c ∈ chunks, c.payload = payload := by
  obtain ⟨c, hc, rfl⟩ := List.mem_map.1 h
  exact ⟨c, (List.mem_filter.1 hc).1, rfl⟩

theorem Supported.blockAlign_pos (h : Supported expected) : 0 < expected.blockAlign := by
  have hchannels : expected.channels.toNat ≠ 0 := fun hzero => h.channels (UInt16.toNat_inj.1 hzero)
  have hwhole := h.whole
  exact Nat.mul_pos (Nat.pos_of_ne_zero hchannels) (by omega)

variable {exact : W64PcmExpectation} {file : List UInt8} {ssrc : Bool}

/-- The chunks that a validated file shows: the expected format, the data, and a fact that says the frames of the data. -/
theorem shown_of_contract {chunks : List Chunk} {t : Traversal} {s : W64ExactStructure} {physical : ℕ} {frames : Option ℕ} {allow : Bool}
    (hsupported : Supported expected) (hnotes : NotesAll 40 unseen chunks t.seen)
    (h : checkContract physical expected expected.blockAlign expected.byteRate frames allow t = .ok s) :
    (∃ payload, payloads w64FmtGuid chunks = [payload] ∧ FormatPayload expected payload) ∧
      (∃ payload, payloads w64DataGuid chunks = [payload] ∧ payload.length = s.declaredDataBytes) ∧
        (payloads w64FactGuid chunks = [leBytes 8 s.sampleFrames] ∨ expected.encoding = .signedInteger ∧ payloads w64FactGuid chunks = []) ∧
          checkFrames s.declaredDataBytes expected.blockAlign frames allow = .ok s.sampleFrames := by
  obtain ⟨-, formatOffset, format, dataOffset, dataBytes, n, hformat, hdata, hcheck, hframes, hagrees, rfl⟩ := checkContract_eq_ok.1 h
  obtain ⟨hshowsFormat, hshowsFact, hshowsData⟩ := showsAll_unseen.notesAll hnotes
  rw [List.nil_append] at hshowsFormat hshowsFact hshowsData
  rw [ShowsFormat, hformat] at hshowsFormat
  rw [ShowsData, hdata] at hshowsData
  refine ⟨?_, ?_, ?_, hframes⟩
  · match hps : payloads w64FmtGuid chunks, hshowsFormat with
    | [payload], ⟨_, _, hsome, hparse⟩ =>
      cases hsome
      exact ⟨payload, rfl, (formatPayload_iff hsupported).1 ⟨format, hparse, hcheck⟩⟩
  · match hps : payloads w64DataGuid chunks, hshowsData with
    | [payload], ⟨_, _, hsome, hlength⟩ =>
      cases hsome
      exact ⟨payload, rfl, hlength⟩
  · rw [ShowsFact] at hshowsFact
    match hps : payloads w64FactGuid chunks, hshowsFact with
    | [], hnone =>
      rw [FactAgrees, hnone] at hagrees
      rcases hagrees with ⟨_, ⟨⟩⟩ | ⟨hencoding, -⟩
      exact .inr ⟨hencoding, rfl⟩
    | [payload], ⟨_, _, hsome, h8, hle⟩ =>
      rw [FactAgrees, hsome] at hagrees
      rcases hagrees with ⟨_, heq⟩ | ⟨-, ⟨⟩⟩
      cases heq
      rw [← hle, ← h8, leBytes_ofLe]
      exact .inl rfl

/-- What the validator has seen of an exact file agrees with the expectation. -/
theorem exact_of_contract {chunks : List Chunk} {t : Traversal} {s : W64ExactStructure} {physical : ℕ}
    (hsupported : Supported exact.toW64PcmFormatExpectation) (hnotes : NotesAll 40 unseen chunks t.seen)
    (h : checkContract physical exact.toW64PcmFormatExpectation exact.blockAlign exact.byteRate (some exact.sampleFrames.toNat) false t = .ok s) :
    Exact exact chunks := by
  obtain ⟨hformat, ⟨data, hdata, hlength⟩, hfact, hframes⟩ := shown_of_contract hsupported hnotes h
  obtain ⟨-, hbytes, -, hsame, hn⟩ := checkFrames_eq_ok.1 hframes
  rw [hn.trans (hsame _ rfl)] at hfact
  exact ⟨hformat, ⟨data, hdata, hlength.trans (hbytes _ rfl)⟩, hfact⟩

/-- The chunks of the grammar are gone through, and the contract holds of what has been seen. -/
theorem contract_of_exact {chunks : List Chunk} (physical : ℕ) (hsupported : Supported exact.toW64PcmFormatExpectation)
    (hcount : chunks.length < 2 ^ 32) (hlength : ∀ c ∈ chunks, c.payload.length < 2 ^ 64) (h : Exact exact chunks) :
    ∃ seen, NotesAll 40 unseen chunks seen ∧ ∀ padding, ∃ s, checkContract physical exact.toW64PcmFormatExpectation exact.blockAlign
      exact.byteRate (some exact.sampleFrames.toNat) false ⟨physical, seen, padding⟩ = .ok s := by
  obtain ⟨format, hformat, hgrammar⟩ := h.format
  obtain ⟨data, hdata, hdataLength⟩ := h.data
  obtain ⟨parsed, hparse, hcheck⟩ := (formatPayload_iff hsupported).2 hgrammar
  have hframesLt : exact.sampleFrames.toNat < 256 ^ 8 := exact.sampleFrames.toNat_lt
  have hfactLength : ∀ p ∈ payloads w64FactGuid chunks, p.length = 8 := by
    intro p hp
    rcases h.fact with hfact | ⟨-, hfact⟩
    · rw [hfact] at hp
      rw [List.mem_singleton.1 hp, length_leBytes]
    · rw [hfact] at hp
      cases hp
  have hfactCount : (payloads w64FactGuid chunks).length ≤ 1 := by
    rcases h.fact with hfact | ⟨-, hfact⟩ <;> rw [hfact] <;> simp
  obtain ⟨seen, hnotes⟩ := exists_notesAll 40 showsAll_unseen (by change 0 + chunks.length < 2 ^ 32; omega)
    (by rw [hformat]; exact le_rfl) (by rw [hformat]; exact fun p hp => ⟨parsed, by rw [List.mem_singleton.1 hp]; exact hparse⟩) hfactCount
    hfactLength (by rw [hdata]; exact le_rfl)
  refine ⟨seen, hnotes, fun padding => ?_⟩
  obtain ⟨hshowsFormat, hshowsFact, hshowsData⟩ := showsAll_unseen.notesAll hnotes
  rw [List.nil_append, hformat] at hshowsFormat
  rw [List.nil_append] at hshowsFact
  rw [List.nil_append, hdata] at hshowsData
  obtain ⟨formatOffset, parsed', hseenFormat, hparse'⟩ := hshowsFormat
  obtain rfl : parsed = parsed' := Except.ok.inj (hparse.symm.trans hparse')
  obtain ⟨dataOffset, _, hseenData, rfl⟩ := hshowsData
  obtain ⟨c, hc, hpayload⟩ := mem_payloads (by rw [hdata]; exact List.mem_singleton_self data)
  have hmax : exact.sampleFrames.toNat * exact.blockAlign ≤ usizeMax := by
    have hlt := hlength c hc
    rw [hpayload, hdataLength] at hlt
    exact Nat.le_sub_one_of_lt hlt
  have hpos := hsupported.blockAlign_pos
  have hdiv : exact.sampleFrames.toNat * exact.blockAlign / exact.blockAlign = exact.sampleFrames.toNat := Nat.mul_div_cancel _ hpos
  have hagrees : FactAgrees exact.encoding seen.fact exact.sampleFrames.toNat := by
    rcases h.fact with hfact | ⟨hencoding, hfact⟩
    · rw [hfact] at hshowsFact
      obtain ⟨offset, n, hseen, -, hn⟩ := hshowsFact
      rw [ofLe_leBytes hframesLt] at hn
      exact .inl ⟨offset, hn ▸ hseen⟩
    · rw [hfact] at hshowsFact
      exact .inr ⟨hencoding, hshowsFact⟩
  refine ⟨_, checkContract_eq_ok.2 ⟨rfl, formatOffset, parsed, dataOffset, _, exact.sampleFrames.toNat, hseenFormat, hseenData, hcheck,
    checkFrames_eq_ok.2 ⟨?_, ?_, .inl ?_, ?_, ?_⟩, hagrees, rfl⟩⟩
  · rintro _ ⟨⟩
    exact hmax
  · rintro _ ⟨⟩
    exact hdataLength
  · rw [hdataLength, Nat.mul_mod_left]
  · rintro _ ⟨⟩
    rw [hdataLength, hdiv]
  · rw [hdataLength, hdiv]

/-- **The files that are accepted for an exact number of frames.** -/
theorem validate_iff : (∃ s, validateExactW64PcmInner file exact.toW64PcmFormatExpectation (some exact.sampleFrames.toNat) false ssrc = .ok s) ↔
    Supported exact.toW64PcmFormatExpectation ∧ ∃ chunks, IsW64 ssrc chunks file ∧ chunks.length < 2 ^ 32 ∧ Exact exact chunks := by
  constructor
  · rintro ⟨s, h⟩
    obtain ⟨hsupported, chunks, t, hfile, -, hnotes, hcontract⟩ := validate_sound h
    have hcount := hnotes.chunkCount (by decide)
    refine ⟨hsupported, chunks, hfile, ?_, exact_of_contract hsupported hnotes hcontract⟩
    rwa [unseen, Nat.zero_add] at hcount
  · rintro ⟨hsupported, chunks, hfile, hcount, hexact⟩
    have hlength : ∀ c ∈ chunks, c.payload.length < 2 ^ 64 := by
      obtain ⟨body, hbody, hlt, hlaid⟩ := hfile
      intro c hc
      have hle := hlaid.length_le hc
      have hlen := congrArg List.length hbody
      rw [List.length_append] at hlen
      omega
    obtain ⟨seen, hnotes, hcontract⟩ := contract_of_exact file.length hsupported hcount hlength hexact
    obtain ⟨s, -, h, -⟩ := validate_complete hsupported hfile hnotes hcontract
    exact ⟨s, h⟩

end Wave64
