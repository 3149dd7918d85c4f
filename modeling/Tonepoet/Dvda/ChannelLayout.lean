import Mathlib.Data.List.Basic

/-!
# DVD-Audio channel layouts (dvda_channel_layout.rs:13-270)

A channel-assignment code says which channels the two groups of a stream carry.
-/

namespace Dvda

inductive DvdaChannelOrderPolicy where
  | preserveDvdAudio
  | waveExtensible
  deriving DecidableEq, Repr

structure DvdaChannelLayout where
  code : UInt8
  group1 : List String
  group2 : List String
  deriving DecidableEq, Repr

namespace DvdaChannelLayout

def group1ChannelCount (self : DvdaChannelLayout) : ℕ := self.group1.length
def group2ChannelCount (self : DvdaChannelLayout) : ℕ := self.group2.length

def orderedChannelNames (self : DvdaChannelLayout) : List String := self.group1 ++ self.group2

def orderLabel (self : DvdaChannelLayout) : String := String.intercalate "," self.orderedChannelNames

/-- `wave_ordered_channel_names` (dvda_channel_layout.rs:112). -/
def waveOrderedChannelNames (self : DvdaChannelLayout) : List String :=
  let source := self.orderedChannelNames
  let ordered := ["L", "R", "C", "LFE", "Ls", "Rs", "S"].filter fun name => source.contains name
  source.foldl (fun ordered name => if ordered.contains name then ordered else ordered ++ [name]) ordered

def waveOrderLabel (self : DvdaChannelLayout) : String := String.intercalate "," self.waveOrderedChannelNames

/-- `source_to_output_indices` (dvda_channel_layout.rs:143). -/
def sourceToOutputIndices (self : DvdaChannelLayout) (policy : DvdaChannelOrderPolicy) : List ℕ :=
  let source := self.orderedChannelNames
  let target := match policy with
    | .preserveDvdAudio => source
    | .waveExtensible => self.waveOrderedChannelNames
  target.filterMap fun name => source.findIdx? (· == name)

/-- `group_label` (dvda_channel_layout.rs:156). -/
def groupLabel (self : DvdaChannelLayout) : String :=
  let code := self.code
  let group1 := if self.group1.isEmpty then "-" else String.intercalate "," self.group1
  let group2 := if self.group2.isEmpty then "-" else String.intercalate "," self.group2
  let source := self.orderLabel
  let wave := self.waveOrderLabel
  s!"code {code}: group1=[{group1}], group2=[{group2}], source_order=[{source}], wave_order=[{wave}]"

end DvdaChannelLayout

/-- `layout_for_assignment_code` (dvda_channel_layout.rs:240). -/
def layoutForAssignmentCode (code : UInt8) : Option DvdaChannelLayout :=
  let groups : Option (List String × List String) := match code.toNat with
    | 0 => some (["C"], [])
    | 1 => some (["L", "R"], [])
    | 2 => some (["L", "R"], ["S"])
    | 3 => some (["L", "R"], ["Ls", "Rs"])
    | 4 => some (["L", "R"], ["LFE"])
    | 5 => some (["L", "R"], ["LFE", "S"])
    | 6 => some (["L", "R"], ["LFE", "Ls", "Rs"])
    | 7 => some (["L", "R"], ["C"])
    | 8 => some (["L", "R"], ["C", "S"])
    | 9 => some (["L", "R"], ["C", "Ls", "Rs"])
    | 10 => some (["L", "R"], ["C", "LFE"])
    | 11 => some (["L", "R"], ["C", "LFE", "S"])
    | 12 => some (["L", "R"], ["C", "LFE", "Ls", "Rs"])
    | 13 => some (["L", "R", "C"], ["S"])
    | 14 => some (["L", "R", "C"], ["Ls", "Rs"])
    | 15 => some (["L", "R", "C"], ["LFE"])
    | 16 => some (["L", "R", "C"], ["LFE", "S"])
    | 17 => some (["L", "R", "C"], ["LFE", "Ls", "Rs"])
    | 18 => some (["L", "R", "Ls", "Rs"], ["LFE"])
    | 19 => some (["L", "R", "Ls", "Rs"], ["C"])
    | 20 => some (["L", "R", "Ls", "Rs"], ["C", "LFE"])
    | _ => none
  groups.map fun (group1, group2) => ⟨code, group1, group2⟩

/-- What the table's layouts have in common. -/
def tableLayouts : List DvdaChannelLayout := (List.range 21).filterMap fun code => layoutForAssignmentCode (UInt8.ofNat code)

theorem mem_tableLayouts {code : UInt8} {layout : DvdaChannelLayout} (h : layoutForAssignmentCode code = some layout) : layout ∈ tableLayouts := by
  have hlt : code.toNat < 21 := by
    by_contra hge
    obtain ⟨k, hk⟩ : ∃ k, code.toNat = k + 21 := ⟨code.toNat - 21, by omega⟩
    rw [layoutForAssignmentCode, hk] at h
    cases h
  refine List.mem_filterMap.2 ⟨code.toNat, List.mem_range.2 hlt, ?_⟩
  rw [UInt8.ofNat_toNat, h]

/-- **Every layout has a first group, at most eight channels, and an order of all its channels under both policies.** -/
theorem layout_spec {code : UInt8} {layout : DvdaChannelLayout} (h : layoutForAssignmentCode code = some layout)
    (policy : DvdaChannelOrderPolicy) : 1 ≤ layout.group1ChannelCount ∧ layout.group1ChannelCount + layout.group2ChannelCount ≤ 8 ∧
      (layout.sourceToOutputIndices policy).Perm (List.range (layout.group1ChannelCount + layout.group2ChannelCount)) := by
  have htable : ∀ layout ∈ tableLayouts, ∀ policy ∈ [DvdaChannelOrderPolicy.preserveDvdAudio, .waveExtensible],
      1 ≤ layout.group1ChannelCount ∧ layout.group1ChannelCount + layout.group2ChannelCount ≤ 8 ∧
        (layout.sourceToOutputIndices policy).Perm (List.range (layout.group1ChannelCount + layout.group2ChannelCount)) := by
    decide
  exact htable layout (mem_tableLayouts h) policy (by cases policy <;> decide)

end Dvda
