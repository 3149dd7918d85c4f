import Mathlib.Data.Fintype.EquivFin
import Tonepoet.Library.PathRegion

/-!
# Path claims (concurrency.rs:637-767)

A claim names what it reaches in three ways: by the resolved path, by the path it was spelled with, and by
the inode. A path is the list of its components (the Unix ones); the empty path has none. The fields of an
identity that neither comparison reads are left out.
-/

namespace Concurrency

open PathRegion

/-- `std::path::Component` on Unix. -/
inductive Component where
  | rootDir
  | curDir
  | parentDir
  | normal (name : List UInt8)
  deriving DecidableEq, Repr

abbrev Path := List Component

inductive ClaimMode where
  | read
  | write
  deriving DecidableEq, Repr

/-- `ClaimScope`. -/
abbrev ClaimScope := PathRegion.Scope

structure ResolvedPathIdentity where
  namespacePath : Path
  namespaceDependencies : List Path
  resolvedIoPath : Path
  dev : Option UInt64
  ino : Option UInt64
  deriving DecidableEq, Repr

structure PathClaim where
  identity : ResolvedPathIdentity
  mode : ClaimMode
  scope : ClaimScope
  deriving DecidableEq, Repr

/-- `path.starts_with(base)`. -/
def startsWith (path base : Path) : Bool := base.isPrefixOf path

namespace PathClaim

/-- `write_touches_dependency` (concurrency.rs:707). -/
def writeTouchesDependency (writer : PathClaim) (dependency : Path) : Bool :=
  if writer.mode ≠ .write then false
  else
    let touches := fun path : Path => path == dependency || (writer.scope == .subtree && startsWith dependency path)
    touches writer.identity.namespacePath || touches writer.identity.resolvedIoPath

/-- `PathClaim::conflicts_with` (concurrency.rs:678). -/
def conflictsWith (self other : PathClaim) : Bool :=
  if self.mode = .read ∧ other.mode = .read then false
  else if self.identity.dev.isSome ∧ self.identity.dev = other.identity.dev ∧
      self.identity.ino.isSome ∧ self.identity.ino = other.identity.ino then true
  else
    let left := self.identity.resolvedIoPath
    let right := other.identity.resolvedIoPath
    let resolvedConflict := left == right ||
      self.scope == .subtree && startsWith right left || other.scope == .subtree && startsWith left right
    if resolvedConflict then true
    else
      let left := self.identity.namespacePath
      let right := other.identity.namespacePath
      let namespaceConflict := !left.isEmpty && !right.isEmpty && (left == right ||
        self.scope == .subtree && startsWith right left || other.scope == .subtree && startsWith left right)
      if namespaceConflict then true
      else
        self.identity.namespaceDependencies.any (writeTouchesDependency other) ||
          other.identity.namespaceDependencies.any (writeTouchesDependency self)

/-- `PathClaim::covers` (concurrency.rs:735). -/
def covers (self other : PathClaim) : Bool :=
  if self.mode = .read ∧ other.mode = .write then false
  else if self.scope = .exact ∧ other.scope = .subtree then false
  else
    let coversPath := fun outer inner : Path => outer == inner || (self.scope == .subtree && startsWith inner outer)
    let dependenciesCovered := other.identity.namespaceDependencies.all fun dependency =>
      self.identity.namespaceDependencies.contains dependency ||
        (!self.identity.namespacePath.isEmpty && coversPath self.identity.namespacePath dependency) ||
        coversPath self.identity.resolvedIoPath dependency
    if !dependenciesCovered then false
    else if coversPath self.identity.resolvedIoPath other.identity.resolvedIoPath then true
    else
      let outer := self.identity.namespacePath
      let inner := other.identity.namespacePath
      !outer.isEmpty && !inner.isEmpty && coversPath outer inner

/-! ## What the comparisons say -/

variable {a b c : PathClaim}

/-- The two claims know one inode. -/
def SameFile (a b : PathClaim) : Prop :=
  a.identity.dev.isSome ∧ a.identity.dev = b.identity.dev ∧ a.identity.ino.isSome ∧ a.identity.ino = b.identity.ino

/-- A writer that reaches a path by either of its own. -/
def Touches (writer : PathClaim) (d : Path) : Prop :=
  writer.mode = .write ∧
    (Covers writer.scope writer.identity.namespacePath d ∨ Covers writer.scope writer.identity.resolvedIoPath d)

/-- The two claims meet in one of their aspects. -/
def Meets (a b : PathClaim) : Prop :=
  a.SameFile b ∨ Overlap a.scope a.identity.resolvedIoPath b.scope b.identity.resolvedIoPath ∨
    (a.identity.namespacePath ≠ [] ∧ b.identity.namespacePath ≠ [] ∧
      Overlap a.scope a.identity.namespacePath b.scope b.identity.namespacePath) ∨
    (∃ d ∈ a.identity.namespaceDependencies, b.Touches d) ∨ ∃ d ∈ b.identity.namespaceDependencies, a.Touches d

theorem startsWith_iff {path base : Path} : startsWith path base = true ↔ base <+: path := List.isPrefixOf_iff_prefix

theorem coversPath_iff {s : ClaimScope} {outer inner : Path} :
    (outer == inner || (s == .subtree && startsWith inner outer)) = true ↔ Covers s outer inner := by
  rw [Bool.or_eq_true, Bool.and_eq_true, beq_iff_eq, beq_iff_eq, startsWith_iff, Covers]

theorem overlap_iff {s t : ClaimScope} {left right : Path} :
    (left == right || s == .subtree && startsWith right left || t == .subtree && startsWith left right) = true ↔
      Overlap s left t right := by
  rw [Bool.or_eq_true, coversPath_iff, Bool.and_eq_true, beq_iff_eq, startsWith_iff, Overlap, Covers, Covers]
  constructor
  · rintro (h | h)
    · exact .inl h
    · exact .inr (.inr h)
  · rintro (h | h | h)
    · exact .inl h
    · exact .inl (.inl h.symm)
    · exact .inr h

theorem writeTouchesDependency_iff {writer : PathClaim} {d : Path} :
    writer.writeTouchesDependency d = true ↔ writer.Touches d := by
  rw [writeTouchesDependency, Touches]
  by_cases hmode : writer.mode = .write
  · rw [if_neg (not_not.2 hmode), Bool.or_eq_true, coversPath_iff, coversPath_iff]
    exact (and_iff_right hmode).symm
  · rw [if_pos hmode]
    exact ⟨nofun, fun h => absurd h.1 hmode⟩

/-- **Claims conflict when one writes and they meet.** -/
theorem conflictsWith_iff : a.conflictsWith b = true ↔ ¬ (a.mode = .read ∧ b.mode = .read) ∧ a.Meets b := by
  rw [conflictsWith, Meets]
  by_cases hread : a.mode = .read ∧ b.mode = .read
  · rw [if_pos hread]
    exact ⟨nofun, fun h => absurd hread h.1⟩
  rw [if_neg hread, and_iff_right hread]
  by_cases hfile : a.SameFile b
  · rw [if_pos (show _ ∧ _ ∧ _ ∧ _ from hfile)]
    exact iff_of_true rfl (.inl hfile)
  rw [if_neg (show ¬ (_ ∧ _ ∧ _ ∧ _) from hfile), or_iff_right hfile]
  dsimp only
  by_cases hresolved : Overlap a.scope a.identity.resolvedIoPath b.scope b.identity.resolvedIoPath
  · rw [if_pos (overlap_iff.2 hresolved)]
    exact iff_of_true rfl (.inl hresolved)
  rw [if_neg (fun h => hresolved (overlap_iff.1 h)), or_iff_right hresolved]
  have hdeps : (a.identity.namespaceDependencies.any (writeTouchesDependency b) ||
      b.identity.namespaceDependencies.any (writeTouchesDependency a)) = true ↔
      (∃ d ∈ a.identity.namespaceDependencies, b.Touches d) ∨ ∃ d ∈ b.identity.namespaceDependencies, a.Touches d := by
    simp only [Bool.or_eq_true, List.any_eq_true, writeTouchesDependency_iff]
  have hnamespace : (!a.identity.namespacePath.isEmpty && !b.identity.namespacePath.isEmpty &&
      (a.identity.namespacePath == b.identity.namespacePath ||
        a.scope == .subtree && startsWith b.identity.namespacePath a.identity.namespacePath ||
        b.scope == .subtree && startsWith a.identity.namespacePath b.identity.namespacePath)) = true ↔
      a.identity.namespacePath ≠ [] ∧ b.identity.namespacePath ≠ [] ∧
        Overlap a.scope a.identity.namespacePath b.scope b.identity.namespacePath := by
    rw [Bool.and_eq_true, overlap_iff]
    simp [and_assoc]
  by_cases hns : a.identity.namespacePath ≠ [] ∧ b.identity.namespacePath ≠ [] ∧
      Overlap a.scope a.identity.namespacePath b.scope b.identity.namespacePath
  · rw [if_pos (hnamespace.2 hns)]
    exact iff_of_true rfl (.inl hns)
  · rw [if_neg (fun h => hns (hnamespace.1 h)), or_iff_right hns, hdeps]

/-- What coverage checks. -/
theorem covers_iff : a.covers b = true ↔ ¬ (a.mode = .read ∧ b.mode = .write) ∧
    (b.scope = .subtree → a.scope = .subtree) ∧
    (∀ d ∈ b.identity.namespaceDependencies, d ∈ a.identity.namespaceDependencies ∨
      (a.identity.namespacePath ≠ [] ∧ Covers a.scope a.identity.namespacePath d) ∨
        Covers a.scope a.identity.resolvedIoPath d) ∧
    (Covers a.scope a.identity.resolvedIoPath b.identity.resolvedIoPath ∨
      (a.identity.namespacePath ≠ [] ∧ b.identity.namespacePath ≠ [] ∧
        Covers a.scope a.identity.namespacePath b.identity.namespacePath)) := by
  rw [covers]
  by_cases hmode : a.mode = .read ∧ b.mode = .write
  · rw [if_pos hmode]
    exact ⟨nofun, fun h => absurd hmode h.1⟩
  rw [if_neg hmode, and_iff_right hmode]
  by_cases hscope : a.scope = .exact ∧ b.scope = .subtree
  · rw [if_pos hscope]
    refine ⟨nofun, fun h => ?_⟩
    rw [h.1 hscope.2] at hscope
    cases hscope.1
  have hwide : b.scope = .subtree → a.scope = .subtree := by
    intro hb
    cases ha : a.scope
    · exact absurd ⟨ha, hb⟩ hscope
    · rfl
  rw [if_neg hscope, and_iff_right hwide]
  have hdeps : (b.identity.namespaceDependencies.all fun dependency =>
      a.identity.namespaceDependencies.contains dependency ||
        (!a.identity.namespacePath.isEmpty && (a.identity.namespacePath == dependency ||
          (a.scope == .subtree && startsWith dependency a.identity.namespacePath))) ||
        (a.identity.resolvedIoPath == dependency ||
          (a.scope == .subtree && startsWith dependency a.identity.resolvedIoPath))) = true ↔
      ∀ d ∈ b.identity.namespaceDependencies, d ∈ a.identity.namespaceDependencies ∨
        (a.identity.namespacePath ≠ [] ∧ Covers a.scope a.identity.namespacePath d) ∨
          Covers a.scope a.identity.resolvedIoPath d := by
    rw [List.all_eq_true]
    refine forall₂_congr fun d _ => ?_
    rw [Bool.or_eq_true, Bool.or_eq_true, Bool.and_eq_true, coversPath_iff, coversPath_iff, or_assoc]
    simp
  have hnamespace : (!a.identity.namespacePath.isEmpty && !b.identity.namespacePath.isEmpty &&
      (a.identity.namespacePath == b.identity.namespacePath ||
        (a.scope == .subtree && startsWith b.identity.namespacePath a.identity.namespacePath))) = true ↔
      a.identity.namespacePath ≠ [] ∧ b.identity.namespacePath ≠ [] ∧
        Covers a.scope a.identity.namespacePath b.identity.namespacePath := by
    rw [Bool.and_eq_true, coversPath_iff]
    simp [and_assoc]
  by_cases hall : ∀ d ∈ b.identity.namespaceDependencies, d ∈ a.identity.namespaceDependencies ∨
      (a.identity.namespacePath ≠ [] ∧ Covers a.scope a.identity.namespacePath d) ∨
        Covers a.scope a.identity.resolvedIoPath d
  swap
  · rw [if_pos (by rw [Bool.not_eq_true', Bool.eq_false_iff]; exact fun h => hall (hdeps.1 h))]
    exact ⟨nofun, fun h => absurd h.1 hall⟩
  rw [if_neg (by rw [Bool.not_eq_true', Bool.eq_false_iff]; exact not_not.2 (hdeps.2 hall)), and_iff_right hall]
  by_cases hresolved : Covers a.scope a.identity.resolvedIoPath b.identity.resolvedIoPath
  · rw [if_pos (coversPath_iff.2 hresolved)]
    exact iff_of_true rfl (.inl hresolved)
  · rw [if_neg (fun h => hresolved (coversPath_iff.1 h)), or_iff_right hresolved]
    exact hnamespace

end PathClaim

end Concurrency
