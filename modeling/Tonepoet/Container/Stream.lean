import Tonepoet.Dst.Search
import Tonepoet.Library.ChunkFile
import Tonepoet.Rust

/-!
# Files read and written by the container code

`Read + Seek` and `Write + Seek` over bytes in memory. A reader is the file and an offset, an output file its bytes
and the position; every length and offset is a `u64`, so a file of more bytes cannot be written.
-/

namespace Container

open Rust ByteFile ChunkFile

/-- `io::Error`, with the texts this code gives it. -/
inductive IoError where
  | unexpectedEof
  | fileTooLarge
  | invalidInput (message : String)
  /-- `invalid_input` of an error of the DST encoder. -/
  | invalidDst (e : Fault Dst.DstEncodeError)
  /-- The panic of an arithmetic operation that overflows. -/
  | overflow
  deriving DecidableEq

/-- `From<io::Error>`. -/
class FromIo (ε : Type) where
  io : IoError → ε

instance : FromIo IoError := ⟨id⟩

section
variable {ε : Type} [FromIo ε]

/-- `seek(SeekFrom::Start(offset))` and `read_exact` of `n` bytes. -/
def readExact (file : List UInt8) (offset n : ℕ) : Except ε (List UInt8) :=
  match readAt file offset n with
  | some bytes => .ok bytes
  | none => .error (FromIo.io .unexpectedEof)

def readFourcc (file : List UInt8) (offset : ℕ) : Except ε (List UInt8) := readExact file offset 4
def readU16Be (file : List UInt8) (offset : ℕ) : Except ε ℕ := ofBe <$> readExact file offset 2
def readU32Be (file : List UInt8) (offset : ℕ) : Except ε ℕ := ofBe <$> readExact file offset 4
def readU64Be (file : List UInt8) (offset : ℕ) : Except ε ℕ := ofBe <$> readExact file offset 8
def readU64Le (file : List UInt8) (offset : ℕ) : Except ε ℕ := ofLe <$> readExact file offset 8

end

/-- `if !condition { return Err(e) }`. -/
def ensure {ε : Type} (condition : Prop) [Decidable condition] (e : ε) : Except ε Unit :=
  if condition then .ok () else .error e

/-- `option.ok_or(e)?`. -/
def orError {ε α : Type} (e : ε) : Option α → Except ε α
  | some a => .ok a
  | none => .error e

def ascii (chars : List Char) : List UInt8 := chars.map fun c => UInt8.ofNat c.toNat

def fourcc (a b c d : Char) : List UInt8 := ascii [a, b, c, d]

/-- `fourcc_lossy`. -/
def fourccLossy (code : List UInt8) : String :=
  String.ofList (code.map fun b => if 0x20 ≤ b ∧ b ≤ 0x7e then Char.ofNat b.toNat else '.')

/-- `{:?}` of bytes. -/
def debugBytes (bytes : List UInt8) : String := "[" ++ String.intercalate ", " (bytes.map fun b => toString b.toNat) ++ "]"

/-- `{:?}` of identifiers. -/
def debugIds (ids : List (List UInt8)) : String := "[" ++ String.intercalate ", " (ids.map debugBytes) ++ "]"

def chunkHeaderSize : ℕ := 12

/-- `padded_chunk_end`. -/
def paddedChunkEnd (dataOffset dataSize : ℕ) : Option ℕ := (checkedAdd dataOffset dataSize).bind fun n => checkedAdd n (dataSize % 2)

theorem checkedAdd_eq_some {a b n : ℕ} (h : checkedAdd a b = some n) : n = a + b := by
  rw [checkedAdd] at h
  split_ifs at h
  exact (Option.some.inj h).symm

theorem le_paddedChunkEnd {dataOffset dataSize next : ℕ} (h : paddedChunkEnd dataOffset dataSize = some next) : dataOffset ≤ next := by
  obtain ⟨n, hn, hnext⟩ := Option.bind_eq_some_iff.1 h
  rw [checkedAdd_eq_some hnext, checkedAdd_eq_some hn]
  omega

/-- The chunk after a header starts after it. -/
theorem lt_paddedChunkEnd {pos dataOffset dataSize next : ℕ} (hdata : checkedAdd pos chunkHeaderSize = some dataOffset)
    (hnext : paddedChunkEnd dataOffset dataSize = some next) : pos < next := by
  have hle := le_paddedChunkEnd hnext
  rw [checkedAdd_eq_some hdata, chunkHeaderSize] at hle
  omega

theorem length_fourcc (a b c d : Char) : (fourcc a b c d).length = 4 := rfl

/-- A chunk with one of this code's identifiers. -/
def chunk (a b c d : Char) (data : List UInt8) : Chunk := ⟨fourcc a b c d, data, length_fourcc a b c d⟩

@[simp] theorem chunk_id (a b c d : Char) (data : List UInt8) : (chunk a b c d data).id = fourcc a b c d := rfl
@[simp] theorem chunk_data (a b c d : Char) (data : List UInt8) : (chunk a b c d data).data = data := rfl

theorem length_flatten_ids {ids : List (List UInt8)} (h : ∀ id ∈ ids, id.length = 4) : ids.flatten.length = 4 * ids.length := by
  induction ids with
  | nil => rfl
  | cons id ids ih =>
    rw [List.flatten_cons, List.length_append, h id List.mem_cons_self, ih fun d hd => h d (List.mem_cons_of_mem _ hd), List.length_cons]
    omega

/-! ## Output files -/

structure OutputFile where
  bytes : List UInt8
  position : ℕ
  deriving DecidableEq

namespace OutputFile

def empty : OutputFile := ⟨[], 0⟩

/-- `write_all`. -/
def writeAll (w : OutputFile) (data : List UInt8) : Except IoError OutputFile :=
  if w.position + data.length ≤ usizeMax then .ok ⟨writeAt w.bytes w.position data, w.position + data.length⟩
  else .error .fileTooLarge

/-- `seek(SeekFrom::Start(position))`. -/
def seek (w : OutputFile) (position : ℕ) : OutputFile := { w with position }

/-- The footer bytes, when there are any. -/
def writeFooter (w : OutputFile) : Option (List UInt8) → Except IoError OutputFile
  | some footer => w.writeAll footer
  | none => .ok w

/-- An output file with the bytes so far, to be continued at the end. -/
def ofBytes (bytes : List UInt8) : OutputFile := ⟨bytes, bytes.length⟩

theorem writeAll_ofBytes {bytes data : List UInt8} (h : bytes.length + data.length ≤ usizeMax) :
    (ofBytes bytes).writeAll data = .ok (ofBytes (bytes ++ data)) := by
  rw [writeAll, ofBytes, if_pos h, writeAt_length, ofBytes, List.length_append]

theorem writeAll_ofBytes_eq_ok {bytes data : List UInt8} {w : OutputFile} (h : (ofBytes bytes).writeAll data = .ok w) :
    w = ofBytes (bytes ++ data) ∧ (bytes ++ data).length ≤ usizeMax := by
  rw [writeAll, ofBytes] at h
  split_ifs at h with hle
  cases h
  rw [writeAt_length, ofBytes, List.length_append]
  exact ⟨rfl, hle⟩

/-- A patch in the middle. -/
theorem writeAll_seek {front old new rest : List UInt8} (h : old.length = new.length)
    (hle : (front ++ (old ++ rest)).length ≤ usizeMax) :
    ((⟨front ++ (old ++ rest), 0⟩ : OutputFile).seek front.length).writeAll new =
      .ok ⟨front ++ (new ++ rest), front.length + new.length⟩ := by
  rw [List.length_append, List.length_append] at hle
  rw [writeAll, seek, if_pos (by dsimp only; omega), writeAt_patch h]

end OutputFile

/-! ## Reading what is there -/

section
variable {ε : Type} [FromIo ε] {file bytes : List UInt8} {offset n : ℕ}

theorem readExact_of_holds (h : Holds file offset bytes) : (readExact file offset bytes.length : Except ε (List UInt8)) = .ok bytes := by
  rw [readExact, h.readAt]

theorem readFourcc_of_holds (h : Holds file offset bytes) (hlen : bytes.length = 4) :
    (readFourcc file offset : Except ε (List UInt8)) = .ok bytes := by
  rw [readFourcc, ← hlen, readExact_of_holds h]

theorem readU16Be_of_holds (h : Holds file offset (beBytes 2 n)) (hn : n < 256 ^ 2) : (readU16Be file offset : Except ε ℕ) = .ok n := by
  have hread := @readExact_of_holds ε _ _ _ _ h
  rw [length_beBytes] at hread
  rw [readU16Be, hread]
  exact congrArg Except.ok (ofBe_beBytes hn)

theorem readU32Be_of_holds (h : Holds file offset (beBytes 4 n)) (hn : n < 256 ^ 4) : (readU32Be file offset : Except ε ℕ) = .ok n := by
  have hread := @readExact_of_holds ε _ _ _ _ h
  rw [length_beBytes] at hread
  rw [readU32Be, hread]
  exact congrArg Except.ok (ofBe_beBytes hn)

theorem readU64Be_of_holds (h : Holds file offset (beBytes 8 n)) (hn : n < 256 ^ 8) : (readU64Be file offset : Except ε ℕ) = .ok n := by
  have hread := @readExact_of_holds ε _ _ _ _ h
  rw [length_beBytes] at hread
  rw [readU64Be, hread]
  exact congrArg Except.ok (ofBe_beBytes hn)

theorem readU64Le_of_holds (h : Holds file offset (leBytes 8 n)) (hn : n < 256 ^ 8) : (readU64Le file offset : Except ε ℕ) = .ok n := by
  have hread := @readExact_of_holds ε _ _ _ _ h
  rw [length_leBytes] at hread
  rw [readU64Le, hread]
  exact congrArg Except.ok (ofLe_leBytes hn)

end

/-! ## Computations that succeed -/

theorem ensure_of {ε : Type} {condition : Prop} {_ : Decidable condition} {e : ε} (h : condition) : ensure condition e = .ok () := if_pos h

theorem pure_bind_eq_ok {ε α β : Type} {a : α} {f : α → Except ε β} {r : β} : ((.ok a : Except ε α) >>= f) = .ok r ↔ f a = .ok r :=
  Iff.rfl

/-- Something goes to the end of the file, when it fits. -/
theorem writeAll_bind_eq_ok {α : Type} {bytes data : List UInt8} {f : OutputFile → Except IoError α} {r : α} :
    ((OutputFile.ofBytes bytes).writeAll data >>= f) = .ok r ↔
      (bytes ++ data).length ≤ usizeMax ∧ f (.ofBytes (bytes ++ data)) = .ok r := by
  rw [bind_eq_ok]
  constructor
  · rintro ⟨w, hw, hf⟩
    obtain ⟨rfl, hle⟩ := OutputFile.writeAll_ofBytes_eq_ok hw
    exact ⟨hle, hf⟩
  · rintro ⟨hle, hf⟩
    exact ⟨_, OutputFile.writeAll_ofBytes (by rwa [← List.length_append]), hf⟩

theorem writeFooter_bind_eq_ok {α : Type} {bytes : List UInt8} {footer : Option (List UInt8)} {f : OutputFile → Except IoError α} {r : α}
    (hle : bytes.length ≤ usizeMax) :
    ((OutputFile.ofBytes bytes).writeFooter footer >>= f) = .ok r ↔
      (bytes ++ footer.getD []).length ≤ usizeMax ∧ f (.ofBytes (bytes ++ footer.getD [])) = .ok r := by
  cases footer with
  | none =>
    rw [Option.getD_none, List.append_nil]
    exact (and_iff_right hle).symm
  | some footer => exact writeAll_bind_eq_ok

theorem ensure_bind_eq_ok {ε α : Type} {condition : Prop} [Decidable condition] {e : ε} {f : Unit → Except ε α} {r : α} :
    (ensure condition e >>= f) = .ok r ↔ condition ∧ f () = .ok r := by
  by_cases h : condition
  · rw [ensure_of h]
    exact (and_iff_right h).symm
  · rw [ensure, if_neg h]
    exact ⟨nofun, fun h' => absurd h'.1 h⟩

theorem orError_some {ε α : Type} (e : ε) (a : α) : orError e (some a) = .ok a := rfl

theorem orError_bind_eq_ok {ε α β : Type} {e : ε} {o : Option α} {f : α → Except ε β} {r : β} :
    (orError e o >>= f) = .ok r ↔ ∃ a, o = some a ∧ f a = .ok r := by
  cases o with
  | none => exact ⟨nofun, fun ⟨_, h, _⟩ => nomatch h⟩
  | some a =>
    constructor
    · intro h
      exact ⟨a, rfl, h⟩
    · rintro ⟨_, ⟨⟩, h⟩
      exact h

theorem checkedAdd_eq_some_iff {a b n : ℕ} : checkedAdd a b = some n ↔ a + b ≤ usizeMax ∧ n = a + b := by
  constructor
  · intro h
    refine ⟨?_, checkedAdd_eq_some h⟩
    rw [checkedAdd] at h
    split_ifs at h with hle
    exact hle
  · rintro ⟨hle, rfl⟩
    exact checkedAdd_of_le hle

end Container
