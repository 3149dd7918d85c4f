import Mathlib.Tactic
import Tonepoet.Rust

/-!
# AccurateRip checksums and the offset scan (tui/accuraterip.rs:1014-1340)

A track is decoded to interleaved 16-bit samples; a stereo pair is one DWORD, left in the low half. The
checksums of a window number its DWORDs from one. A scan looks at the window of a track moved by each
offset of a list, in a buffer with a margin on either side.
-/

namespace AccurateRip

open Rust

def skipSectors : ℕ := 5
def samplesPerSector : ℕ := 588
def skipDwords : ℕ := skipSectors * samplesPerSector
def maxOffset : ℕ := 1200

/-! ## DWORDs -/

/-- One stereo pair. -/
def packPair (l r : Int16) : UInt32 := l.toUInt16.toUInt32 ||| (r.toUInt16.toUInt32 <<< 16)

/-- The loop over `track_len` in `decode_track_to_dwords` (accuraterip.rs:1256), and in
    `verify_single_image`: `raw_i16[i * 2]` and `raw_i16[i * 2 + 1]`. A last single sample is dropped. -/
def toDwords : List Int16 → List UInt32
  | l :: r :: raw => packPair l r :: toDwords raw
  | _ => []

/-- `decode_track_to_dwords` (accuraterip.rs:1245), behind the decoder. -/
def decodeTrackToDwords (raw : List Int16) (margin : ℕ) : List UInt32 × ℕ :=
  (List.replicate margin 0 ++ toDwords raw ++ List.replicate margin 0, raw.length / 2)

/-! ## The checksums -/

/-- The body of the loop of `compute_ar_crcs`: the DWORD at index `i`. -/
def crcStep (checkFrom checkTo : UInt32) (crc : UInt32 × UInt32) (item : UInt32 × ℕ) : UInt32 × UInt32 :=
  let pos := UInt32.ofNat (item.2 + 1)
  if pos < checkFrom ∨ pos > checkTo then crc
  else
    let product : UInt64 := item.1.toUInt64 * pos.toUInt64
    let lo := (product &&& 0xFFFFFFFF).toUInt32
    let hi := (product >>> 32).toUInt32
    (crc.1 + pos * item.1, crc.2 + lo + hi)

/-- `compute_ar_crcs` (accuraterip.rs:1030). -/
def computeArCrcs (dwords : List UInt32) (isFirst isLast : Bool) : UInt32 × UInt32 :=
  let n := dwords.length
  if n = 0 then (0, 0)
  else
    let checkFrom : UInt32 := if isFirst then UInt32.ofNat (skipDwords + 1) else 1
    let checkTo := if isLast then UInt32.ofNat (n - skipDwords) else UInt32.ofNat n
    dwords.zipIdx.foldl (crcStep checkFrom checkTo) (0, 0)

/-- `compute_ar_crcs_at_offset` (accuraterip.rs:1080). -/
def computeArCrcsAtOffset (fullDwords : List UInt32) (trackLen margin : ℕ) (offset : ℤ) (isFirst isLast : Bool) :
    Option (UInt32 × UInt32) :=
  let start := (margin : ℤ) - offset
  let stop := start + trackLen
  if start < 0 ∨ stop > fullDwords.length then none
  else some (computeArCrcs ((fullDwords.drop start.toNat).take (stop.toNat - start.toNat)) isFirst isLast)

/-! ## The scan -/

structure ArTrackEntry where
  confidence : UInt8
  crc : UInt32
  deriving DecidableEq, Repr

/-- What the scan reads of an `ArPressing`. -/
abbrev ArPressing := List ArTrackEntry

def commonOffsets : List ℤ :=
  [0, 6, -6, 12, -12, 48, -48, 97, -97, 102, -102, 103, -103, 116, -116, 120, -120, 294, -294,
    355, -355, 587, -587, 588, -588, 594, -594, 667, -667, 685, -685, 691, -691, 694, -694, 738,
    -738, 1164, -1164, 1194, -1194]

/-- The offsets of a scan. -/
def scanOffsets (fullScan : Bool) : List ℤ :=
  if fullScan then (List.range 2401).map fun (k : ℕ) => (k : ℤ) - 1200 else commonOffsets

/-- The margin of a scan: its largest offset. -/
def scanMargin (fullScan : Bool) : ℕ :=
  if fullScan then maxOffset else (commonOffsets.map Int.natAbs).max?.getD 0

/-- `try_offsets` (accuraterip.rs:1300): the first offset at which a pressing has the track's checksum. -/
def tryOffsets (fullDwords : List UInt32) (trackLen margin : ℕ) (isFirst isLast : Bool) (pressings : List ArPressing)
    (trackIdx : ℕ) (offsets : List ℤ) : Option (ℤ × UInt8) :=
  offsets.findSome? fun offset => do
    let (v1, v2) ← computeArCrcsAtOffset fullDwords trackLen margin offset isFirst isLast
    pressings.findSome? fun pressing => do
      let entry ← pressing[trackIdx]?
      if v1 = entry.crc ∨ v2 = entry.crc then some (offset, entry.confidence) else none

/-! ## Pairs stay together -/

theorem scanMargin_common : scanMargin false = 1194 := by decide +kernel

theorem toDwords_append : ∀ {xs : List Int16} (_ : xs.length % 2 = 0) (ys : List Int16),
    toDwords (xs ++ ys) = toDwords xs ++ toDwords ys
  | [], _, _ => rfl
  | [_], h, _ => by simp at h
  | l :: r :: xs, h, ys => by
    have heven : xs.length % 2 = 0 := by
      rw [List.length_cons, List.length_cons] at h
      omega
    simp only [List.cons_append, toDwords, toDwords_append heven ys]

theorem length_toDwords : ∀ xs : List Int16, (toDwords xs).length = xs.length / 2
  | [] => rfl
  | [_] => by simp [toDwords]
  | _ :: _ :: xs => by
    rw [toDwords, List.length_cons, length_toDwords xs, List.length_cons, List.length_cons]
    omega

/-- Silence is zero. -/
theorem toDwords_silence (n : ℕ) : toDwords (List.replicate (2 * n) 0) = List.replicate n 0 := by
  induction n with
  | zero => rfl
  | succ n ih =>
    rw [Nat.mul_succ, List.replicate_succ, List.replicate_succ, toDwords, ih, List.replicate_succ]
    rfl

end AccurateRip
