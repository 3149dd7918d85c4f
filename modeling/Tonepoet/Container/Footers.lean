import Tonepoet.Container.ChunkReading

/-!
# The rendered footers (id3.rs:57-325, dff_footer.rs:52-280)

The ID3v2.4 tag of a DSF file, and the three chunks of a DSDIFF file, the last of which holds the tag again. Both
follow the quirks of the original renderer. The table of genre names is left out.
-/

namespace Container

open ByteFile ChunkFile

/-- `str::as_bytes`. -/
def utf8 (text : String) : List UInt8 := text.toUTF8.data.toList

/-- `{:0width}`. -/
def zeroPadded (width n : ℕ) : String :=
  let digits := toString n
  String.ofList (List.replicate (width - digits.length) '0') ++ digits

/-! ## The tag -/

structure Id3Metadata where
  tit2 : Option String
  talb : Option String
  tpe1 : Option String
  tpe2 : Option String
  txxxPerformer : Option String
  tcom : Option String
  tsrc : Option String
  tpub : Option String
  tcop : Option String
  tpos : Option (UInt16 × UInt16)
  tcon : Option String
  tyer : Option UInt16
  tdat : Option (UInt8 × UInt8)
  trck : Option (UInt16 × UInt16)

/-- `libid3_size28` (id3.rs:105): eight, eight, eight and seven bits. -/
def libid3Size28 (size : ℕ) : List UInt8 :=
  [UInt8.ofNat (size / 2 ^ 23), UInt8.ofNat (size / 2 ^ 15), UInt8.ofNat (size / 2 ^ 7), UInt8.ofNat (size % 2 ^ 7)]

def encodingIso8859 : UInt8 := 0
def encodingUtf8 : UInt8 := 3

/-- `emit_text_frame` (id3.rs:287). -/
def emitTextFrame (frameId : List UInt8) (text : String) (encoding : UInt8) : List UInt8 :=
  let textBytes := utf8 text
  let frSize := (textBytes.length + 2) % 2 ^ 32
  frameId ++ libid3Size28 frSize ++ [0, 0] ++ [encoding] ++ textBytes ++ [0]

/-- `emit_txxx_performer` (id3.rs:307). -/
def emitTxxxPerformer (text : String) : List UInt8 :=
  let desc := ascii ['P', 'E', 'R', 'F', 'O', 'R', 'M', 'E', 'R']
  let textBytes := utf8 text
  let frSize := (1 + desc.length + 1 + textBytes.length + 1) % 2 ^ 32
  fourcc 'T' 'X' 'X' 'X' ++ libid3Size28 frSize ++ [0, 0] ++ [encodingUtf8] ++ desc ++ [0] ++ textBytes ++ [0]

/-- `if let Some(s) = field { emit(s) }`. -/
def whenSome {α : Type} (field : Option α) (emit : α → List UInt8) : List UInt8 := field.elim [] emit

/-- The frames of `render_id3v24`. -/
def id3Frames (metadata : Id3Metadata) : List UInt8 :=
  whenSome metadata.tit2 (emitTextFrame (fourcc 'T' 'I' 'T' '2') · encodingUtf8) ++
    whenSome metadata.talb (emitTextFrame (fourcc 'T' 'A' 'L' 'B') · encodingUtf8) ++
    whenSome metadata.tpe1 (emitTextFrame (fourcc 'T' 'P' 'E' '1') · encodingUtf8) ++
    whenSome metadata.tpe2 (emitTextFrame (fourcc 'T' 'P' 'E' '2') · encodingUtf8) ++
    whenSome metadata.txxxPerformer emitTxxxPerformer ++
    whenSome metadata.tcom (emitTextFrame (fourcc 'T' 'C' 'O' 'M') · encodingUtf8) ++
    whenSome metadata.tsrc (emitTextFrame (fourcc 'T' 'S' 'R' 'C') · encodingUtf8) ++
    whenSome metadata.tpub (emitTextFrame (fourcc 'T' 'P' 'U' 'B') · encodingUtf8) ++
    whenSome metadata.tcop (emitTextFrame (fourcc 'T' 'C' 'O' 'P') · encodingUtf8) ++
    whenSome metadata.tpos (fun (n, m) => emitTextFrame (fourcc 'T' 'P' 'O' 'S') s!"{n}/{m}" encodingUtf8) ++
    whenSome metadata.tcon (emitTextFrame (fourcc 'T' 'C' 'O' 'N') · encodingUtf8) ++
    whenSome metadata.tyer (fun year => emitTextFrame (fourcc 'T' 'Y' 'E' 'R') (zeroPadded 4 year.toNat) encodingIso8859) ++
    -- month before day, as the original writes it
    whenSome metadata.tdat (fun (month, day) =>
      emitTextFrame (fourcc 'T' 'D' 'A' 'T') (zeroPadded 2 month.toNat ++ zeroPadded 2 day.toNat) encodingIso8859) ++
    whenSome metadata.trck (fun (n, m) => emitTextFrame (fourcc 'T' 'R' 'C' 'K') s!"{n}/{m}" encodingUtf8)

/-- `render_id3v24` (id3.rs:208). -/
def renderId3v24 (metadata : Id3Metadata) : List UInt8 :=
  let frames := id3Frames metadata
  ascii ['I', 'D', '3'] ++ [4, 0, 0] ++ libid3Size28 (frames.length % 2 ^ 32) ++ frames

/-! ## The chunks -/

structure DffMetadata where
  diar : Option String
  diti : Option String
  durationMinutesTotal : UInt32
  durationSeconds : UInt8
  durationFrames : UInt8
  discDateYear : UInt16
  discDateMonth1Indexed : UInt8
  discDateDay : UInt8
  discOrAlbumTitle : String
  creationYear : UInt16
  creationMonth0Indexed : UInt8
  creationDay : UInt8
  creationHour : UInt8
  creationMinute : UInt8
  creatingMachine : String
  id3 : Id3Metadata

/-- `ceil_odd`. -/
def ceilOdd (n : ℕ) : ℕ := if n % 2 = 1 then n + 1 else n

/-- A text with its count of bytes, and a zero byte when that is odd. -/
def countedText (text : String) : List UInt8 :=
  let textBytes := utf8 text
  let count := textBytes.length % 2 ^ 32
  beBytes 4 count ++ textBytes ++ if count % 2 = 1 then [0] else []

/-- `emit_mark` (dff_footer.rs:125). -/
def emitMark (metadata : DffMetadata) : List UInt8 :=
  let hours := metadata.durationMinutesTotal.toNat / 60
  let minutes := metadata.durationMinutesTotal.toNat % 60
  let samples := metadata.durationFrames.toNat * 588 * 64
  fourcc 'M' 'A' 'R' 'K' ++ beBytes 8 22 ++ beBytes 2 hours ++ [UInt8.ofNat minutes] ++ [metadata.durationSeconds] ++ beBytes 4 samples ++
    beBytes 4 0 ++ beBytes 2 4 ++ beBytes 2 0 ++ beBytes 2 0 ++ beBytes 4 0

/-- `emit_text_chunk` (dff_footer.rs:146). -/
def emitTextChunk (chunkId : List UInt8) (text : String) : List UInt8 :=
  let count := (utf8 text).length % 2 ^ 32
  chunkId ++ beBytes 8 (ceilOdd (4 + count)) ++ countedText text

/-- What `emit_diin` (dff_footer.rs:164) puts into `DIIN`. -/
def diinPayload (metadata : DffMetadata) : List UInt8 :=
  emitMark metadata ++ whenSome metadata.diar (emitTextChunk (fourcc 'D' 'I' 'A' 'R')) ++ whenSome metadata.diti (emitTextChunk (fourcc 'D' 'I' 'T' 'I'))

def emitDiin (metadata : DffMetadata) : List UInt8 :=
  let inner := diinPayload metadata
  fourcc 'D' 'I' 'I' 'N' ++ beBytes 8 inner.length ++ inner

/-- `emit_comment` (dff_footer.rs:226). -/
def emitComment (year : UInt16) (month day hour minute : UInt8) (commentType commentReference : ℕ) (text : String) : List UInt8 :=
  beBytes 2 year.toNat ++ [month, day, hour, minute] ++ beBytes 2 commentType ++ beBytes 2 commentReference ++ countedText text

/-- What `emit_comt` (dff_footer.rs:183) puts into `COMT`. -/
def comtPayload (metadata : DffMetadata) : List UInt8 :=
  beBytes 2 2 ++
    emitComment metadata.discDateYear metadata.discDateMonth1Indexed metadata.discDateDay 0 0 3 0
      ("Material ripped from SACD: " ++ metadata.discOrAlbumTitle) ++
    emitComment metadata.creationYear metadata.creationMonth0Indexed metadata.creationDay metadata.creationHour metadata.creationMinute 3 2
      metadata.creatingMachine

def emitComt (metadata : DffMetadata) : List UInt8 :=
  let inner := comtPayload metadata
  fourcc 'C' 'O' 'M' 'T' ++ beBytes 8 inner.length ++ inner

/-- `emit_id3_chunk` (dff_footer.rs:257): the size counts the zero byte. -/
def emitId3Chunk (id3Bytes : List UInt8) : List UInt8 :=
  fourcc 'I' 'D' '3' ' ' ++ beBytes 8 (ceilOdd id3Bytes.length) ++ id3Bytes ++ if id3Bytes.length % 2 = 1 then [0] else []

/-- `render_dff_footer` (dff_footer.rs:272). -/
def renderDffFooter (metadata : DffMetadata) : List UInt8 := emitDiin metadata ++ emitComt metadata ++ emitId3Chunk (renderId3v24 metadata.id3)

/-! ## A footer is chunks -/

/-- A chunk of an even number of bytes. -/
theorem bytes_of_even {c : Chunk} (h : c.data.length % 2 = 0) : c.bytes = c.id ++ beBytes 8 c.data.length ++ c.data := by
  rw [Chunk.bytes, padding, if_neg (by omega), List.append_nil, List.append_assoc]

theorem countedText_even (text : String) : (countedText text).length % 2 = 0 := by
  unfold countedText
  dsimp only
  split_ifs with h <;> simp only [List.length_append, length_beBytes, List.length_cons, List.length_nil] <;> omega

theorem diinPayload_even (metadata : DffMetadata) : (diinPayload metadata).length % 2 = 0 := by
  have hmark : (emitMark metadata).length = 34 := by
    simp only [emitMark, List.length_append, length_fourcc, length_beBytes, List.length_cons, List.length_nil]
  have htext : ∀ (field : Option String) (a b c d : Char), (whenSome field (emitTextChunk (fourcc a b c d))).length % 2 = 0 := by
    intro field a b c d
    cases field with
    | none => rfl
    | some text =>
      have heven := countedText_even text
      simp only [whenSome, Option.elim_some, emitTextChunk, List.length_append, length_fourcc, length_beBytes]
      omega
  have hdiar := htext metadata.diar 'D' 'I' 'A' 'R'
  have hditi := htext metadata.diti 'D' 'I' 'T' 'I'
  rw [diinPayload, List.length_append, List.length_append]
  omega

theorem comtPayload_even (metadata : DffMetadata) : (comtPayload metadata).length % 2 = 0 := by
  have hcomment : ∀ year month day hour minute type reference text,
      (emitComment year month day hour minute type reference text).length % 2 = 0 := by
    intro year month day hour minute type reference text
    have heven := countedText_even text
    simp only [emitComment, List.length_append, length_beBytes, List.length_cons, List.length_nil]
    omega
  rw [comtPayload, List.length_append, List.length_append, length_beBytes]
  have hfirst := hcomment metadata.discDateYear metadata.discDateMonth1Indexed metadata.discDateDay 0 0 3 0
    ("Material ripped from SACD: " ++ metadata.discOrAlbumTitle)
  have hsecond := hcomment metadata.creationYear metadata.creationMonth0Indexed metadata.creationDay metadata.creationHour metadata.creationMinute 3 2
    metadata.creatingMachine
  omega

/-- The chunks of a rendered footer. -/
def footerChunks (metadata : DffMetadata) : List FooterChunk :=
  let tag := renderId3v24 metadata.id3
  [⟨chunk 'D' 'I' 'I' 'N' (diinPayload metadata), show fourcc 'D' 'I' 'I' 'N' ∉ topLevelIds by decide⟩,
    ⟨chunk 'C' 'O' 'M' 'T' (comtPayload metadata), show fourcc 'C' 'O' 'M' 'T' ∉ topLevelIds by decide⟩,
    ⟨chunk 'I' 'D' '3' ' ' (tag ++ padding tag.length), show fourcc 'I' 'D' '3' ' ' ∉ topLevelIds by decide⟩]

/-- A rendered footer is a list of chunks, none of which has a meaning to the inspection. -/
theorem renderDffFooter_eq (metadata : DffMetadata) : renderDffFooter metadata = footerOf (footerChunks metadata) := by
  have hid3 : ∀ tag : List UInt8, emitId3Chunk tag = (chunk 'I' 'D' '3' ' ' (tag ++ padding tag.length)).bytes := by
    intro tag
    have hlength : (tag ++ padding tag.length).length = ceilOdd tag.length := by
      rw [List.length_append, length_padding, ceilOdd]
      split_ifs with h <;> omega
    have heven : (chunk 'I' 'D' '3' ' ' (tag ++ padding tag.length)).data.length % 2 = 0 := by
      rw [chunk_data, hlength, ceilOdd]
      split_ifs with h <;> omega
    rw [bytes_of_even heven, chunk_id, chunk_data, hlength, emitId3Chunk, padding]
    simp only [List.append_assoc]
  have hdiin : emitDiin metadata = (chunk 'D' 'I' 'I' 'N' (diinPayload metadata)).bytes := by
    rw [bytes_of_even (c := chunk 'D' 'I' 'I' 'N' (diinPayload metadata)) (diinPayload_even metadata), chunk_id, chunk_data, emitDiin]
  have hcomt : emitComt metadata = (chunk 'C' 'O' 'M' 'T' (comtPayload metadata)).bytes := by
    rw [bytes_of_even (c := chunk 'C' 'O' 'M' 'T' (comtPayload metadata)) (comtPayload_even metadata), chunk_id, chunk_data, emitComt]
  rw [renderDffFooter, hdiin, hcomt, hid3, footerOf, footerChunks]
  simp only [List.map_cons, List.map_nil, bytesOf_cons, bytesOf_nil, List.append_nil, List.append_assoc]

end Container
