import Tonepoet.Container.Stream

/-!
# The chunks of a DSDIFF file

What both writers put in front of the audio.
-/

namespace Container

open ByteFile ChunkFile

/-- The channel identifiers both DSDIFF writers put into `CHNL` (`write_channel_ids`). -/
def channelIds (channelCount : ℕ) : List (List UInt8) :=
  match channelCount with
  | 2 => [fourcc 'S' 'L' 'F' 'T', fourcc 'S' 'R' 'G' 'T']
  | 5 => [fourcc 'M' 'L' 'F' 'T', fourcc 'M' 'R' 'G' 'T', fourcc 'C' ' ' ' ' ' ', fourcc 'L' 'S' ' ' ' ', fourcc 'R' 'S' ' ' ' ']
  | 6 => [fourcc 'M' 'L' 'F' 'T', fourcc 'M' 'R' 'G' 'T', fourcc 'C' ' ' ' ' ' ', fourcc 'L' 'F' 'E' ' ', fourcc 'L' 'S' ' ' ' ',
      fourcc 'R' 'S' ' ' ' ']
  | n => (List.range n).map fun i => [67, UInt8.ofNat (48 + i / 100), UInt8.ofNat (48 + i / 10 % 10), UInt8.ofNat (48 + i % 10)]

/-- `loudspeaker_config`. -/
def loudspeakerConfig (channelCount : ℕ) : ℕ :=
  match channelCount with
  | 2 => 0
  | 5 => 3
  | 6 => 4
  | _ => 65535

theorem length_channelIds (channelCount : ℕ) : (channelIds channelCount).length = channelCount := by
  unfold channelIds
  split
  · rfl
  · rfl
  · rfl
  · rw [List.length_map, List.length_range]

theorem length_of_mem_channelIds {channelCount : ℕ} {id : List UInt8} (h : id ∈ channelIds channelCount) : id.length = 4 := by
  unfold channelIds at h
  split at h
  · fin_cases h <;> rfl
  · fin_cases h <;> rfl
  · fin_cases h <;> rfl
  · obtain ⟨i, -, rfl⟩ := List.mem_map.1 h
    rfl

/-- The `FVER` chunk. -/
def versionChunk : Chunk := chunk 'F' 'V' 'E' 'R' (beBytes 4 0x01050000)

/-- The payload of a `PROP` chunk with a rate, the channels, a compression code and its name, and a loudspeaker layout. -/
def propertyChunks (sampleRate : ℕ) (ids : List (List UInt8)) (compression lsco : List UInt8) : List Chunk :=
  [chunk 'F' 'S' ' ' ' ' (beBytes 4 sampleRate), chunk 'C' 'H' 'N' 'L' (beBytes 2 ids.length ++ ids.flatten),
    chunk 'C' 'M' 'P' 'R' compression, chunk 'L' 'S' 'C' 'O' lsco]

/-- The `PROP` chunk of a file. -/
def propertyChunk (sampleRate channelCount : ℕ) (compression lsco : List UInt8) : Chunk :=
  chunk 'P' 'R' 'O' 'P' (fourcc 'S' 'N' 'D' ' ' ++ bytesOf (propertyChunks sampleRate (channelIds channelCount) compression lsco))

end Container
