import Mathlib.Tactic
import Tonepoet.Library.Transition

/-!
# Owners of a journal lease (concurrency.rs:1112-1284, 1841-1943, 2026-2037, 2134-2171)

One `JournalOperation` descriptor as one process sees it. A lease is a Rust value behind an `Arc`; several
leases share an open file description, whose owners are counted. The threads of the process interleave
between atomic steps: the sections under the registration mutex, each access to the export flag, each
system call. The kernel gives a file lock up when it is unlocked or when the last descriptor of the open
file is closed; other holders of the lock (processes, scanners) come and go.
-/

namespace Concurrency.Journal

open Transition

/-- An open file description with its `PersistentLeaseSharedState`. -/
structure OpenFile where
  /-- `logical_owners`, an `AtomicUsize`. -/
  logicalOwners : ℕ
  lifetimeFileExported : Bool
  /-- `Arc`s a scanner has upgraded and not yet dropped. -/
  borrowed : ℕ
  /-- Duplicated descriptors: exports and the accidental copies of a fork. -/
  duplicates : ℕ
  locked : Bool

/-- How far a lease is: its destructor releases ownership, looks at the export flag, unlocks, closes. -/
inductive Phase where
  | live
  | released (finalOwner : Bool)
  | unlocking
  | closing
  | gone
  deriving DecidableEq

structure Lease where
  file : ℕ
  /-- Clones of the `Arc<PersistentLease>`. -/
  holders : ℕ
  /-- Calls of `duplicate_lifetime_file` that have duplicated the file and not yet stored the flag. -/
  exporting : ℕ
  phase : Phase

structure Process where
  /-- The descriptor's owner is this process. -/
  ownedHere : Bool
  fileCount : ℕ
  files : ℕ → OpenFile
  leases : List Lease
  /-- The entry of `LOCAL_PERSISTENT_LEASE_FILES` for the path: weak references to a file and its state. -/
  registration : Option ℕ
  /-- Somebody else holds the kernel lock. -/
  lockedElsewhere : Bool

inductive Event where
  /-- `create`, and `acquire_existing_recovery` when the lock was free. -/
  | acquire
  /-- `acquire_existing`: nothing is registered. -/
  | acquireExisting
  /-- `from_inherited_fd`. -/
  | inherit
  /-- `acquire_current_process_coheld_descriptor`; whether the path still names the file. -/
  | cohold (bound : Bool)
  | clone (lease : ℕ)
  | drop (lease : ℕ)
  | release (lease : ℕ)
  | checkExported (lease : ℕ)
  /-- The call of `FileExt::unlock`; whether it succeeds. -/
  | unlock (lease : ℕ) (succeeded : Bool)
  | close (lease : ℕ)
  | duplicate (lease : ℕ)
  | storeExported (lease : ℕ)
  | closeDuplicate (file : ℕ)
  | fork (file : ℕ)
  /-- `current_process_coheld_descriptor`, and the end of its caller. -/
  | peek
  | unpeek (file : ℕ)
  | lockElsewhere
  | unlockElsewhere

inductive Outcome where
  | none
  | acquired (file : ℕ)
  | coheld (file : ℕ)
  /-- `Weak::upgrade` refuses to count further. -/
  | upgradePanicked (file : ℕ)
  /-- `fetch_sub` found no owner. -/
  | underflowed (file : ℕ)
  | released (file : ℕ) (finalOwner : Bool)
  | unlocked (file : ℕ)
  | duplicated (file : ℕ)
  | exported (file : ℕ)
  deriving DecidableEq

/-- `isize::MAX`, the limit of a reference count. -/
def maxRefcount : ℕ := 2 ^ 63 - 1

/-- `PersistentLeaseSharedState::new` for a file that has just been locked. -/
def OpenFile.new (lifetimeFileExported : Bool) : OpenFile := ⟨1, lifetimeFileExported, 0, 0, true⟩

/-! What one lease adds to the counts of a file. -/

namespace Lease

def liveAt (g : ℕ) (l : Lease) : ℕ := if l.file = g ∧ l.phase = .live then 1 else 0

/-- The last owner, until its unlock. -/
def finalAt (g : ℕ) (l : Lease) : ℕ := if l.file = g ∧ (l.phase = .released true ∨ l.phase = .unlocking) then 1 else 0

/-- Its `Arc<File>` is not dropped. -/
def openAt (g : ℕ) (l : Lease) : ℕ := if l.file = g ∧ l.phase ≠ .gone then 1 else 0

end Lease

namespace Process

def initial (ownedHere : Bool) : Process := ⟨ownedHere, 0, fun _ => ⟨0, false, 0, 0, false⟩, [], none, false⟩

/-- Logical owners: leases whose destructor has not released them. -/
def live (s : Process) (g : ℕ) : ℕ := (s.leases.map (Lease.liveAt g)).sum

def finals (s : Process) (g : ℕ) : ℕ := (s.leases.map (Lease.finalAt g)).sum

def opened (s : Process) (g : ℕ) : ℕ := (s.leases.map (Lease.openAt g)).sum

/-- The strong count of `Arc<File>`. -/
def strong (s : Process) (g : ℕ) : ℕ := s.opened g + (s.files g).borrowed

def updateFile (s : Process) (g : ℕ) (f : OpenFile → OpenFile) : Process :=
  { s with files := Function.update s.files g (f (s.files g)) }

def setLease (s : Process) (i : ℕ) (l : Lease) : Process := { s with leases := s.leases.set i l }

/-- A new lease of an open file. -/
def addLease (s : Process) (g : ℕ) : Process := { s with leases := s.leases ++ [⟨g, 1, 0, .live⟩] }

/-- The lock goes with the last descriptor of the open file. -/
def settle (s : Process) (g : ℕ) : Process :=
  if s.strong g + (s.files g).duplicates = 0 then s.updateFile g fun f => { f with locked := false } else s

/-- `try_lock_exclusive` on a new file description succeeds. -/
def lockFree (s : Process) : Bool := !s.lockedElsewhere && (List.range s.fileCount).all fun g => !(s.files g).locked

/-- A new file description, locked, with its first lease. -/
def openLocked (s : Process) (lifetimeFileExported : Bool) (registration : Option ℕ) : Process :=
  addLease { s with
    fileCount := s.fileCount + 1
    files := Function.update s.files s.fileCount (.new lifetimeFileExported)
    registration := registration } s.fileCount

/-- `acquire_current_process_coheld_descriptor` (concurrency.rs:1219), from the mutex on. -/
def acquireCoheld (s : Process) (bound : Bool) : Process × Outcome :=
  match s.registration with
  | none => (s, .none)
  | some g =>
    if s.strong g = 0 then ({ s with registration := none }, .none)
    else if maxRefcount < s.strong g then (s, .upgradePanicked g)
    else if bound then
      ((s.updateFile g fun f => { f with logicalOwners := (f.logicalOwners + 1) % 2 ^ 64 }).addLease g, .coheld g)
    else (s, .none)

/-- `release_local_persistent_lease_owner` (concurrency.rs:1253): `fetch_sub` wraps, and the final owner takes the
    entry away if it is its own or dead. -/
def releaseOwner (s : Process) (i : ℕ) (l : Lease) : Process × Outcome :=
  let previous := (s.files l.file).logicalOwners
  let finalOwner := previous == 1
  let t := s.updateFile l.file fun f => { f with logicalOwners := (f.logicalOwners + (2 ^ 64 - 1)) % 2 ^ 64 }
  let stale := s.registration.any fun g => g == l.file || s.strong g == 0
  let registration := if finalOwner && stale then none else s.registration
  ({ t.setLease i { l with phase := .released finalOwner } with registration },
    if previous = 0 then .underflowed l.file else .released l.file finalOwner)

/-- One step. -/
def step (s : Process) : Event → Option (Process × Outcome)
  | .acquire =>
    if s.lockFree then
      some (s.openLocked false (if s.ownedHere then some s.fileCount else s.registration), .acquired s.fileCount)
    else none
  | .acquireExisting =>
    if s.lockFree then some (s.openLocked false s.registration, .acquired s.fileCount) else none
  | .inherit =>
    if s.fileCount = 0 ∧ s.lockedElsewhere then
      some ({ s.openLocked true s.registration with lockedElsewhere := false }, .acquired s.fileCount)
    else none
  | .cohold bound => if s.ownedHere then some (s.acquireCoheld bound) else none
  | .clone i =>
    match s.leases[i]? with
    | some l => if 0 < l.holders then some (s.setLease i { l with holders := l.holders + 1 }, .none) else none
    | none => none
  | .drop i =>
    match s.leases[i]? with
    | some l =>
      -- the last holder cannot go while a call still borrows the lease
      if 0 < l.holders ∧ (l.holders = 1 → l.exporting = 0) then
        some (s.setLease i { l with holders := l.holders - 1 }, .none)
      else none
    | none => none
  | .release i =>
    match s.leases[i]? with
    | some l => if l.holders = 0 ∧ l.phase = .live then some (s.releaseOwner i l) else none
    | none => none
  | .checkExported i =>
    match s.leases[i]? with
    | some l =>
      match l.phase with
      | .released finalOwner =>
        let next := if !finalOwner || (s.files l.file).lifetimeFileExported then Phase.closing else .unlocking
        some (s.setLease i { l with phase := next }, .none)
      | _ => none
    | none => none
  | .unlock i succeeded =>
    match s.leases[i]? with
    | some l =>
      if l.phase = .unlocking then
        some ((s.updateFile l.file fun f => { f with locked := !succeeded }).setLease i { l with phase := .closing },
          .unlocked l.file)
      else none
    | none => none
  | .close i =>
    match s.leases[i]? with
    | some l => if l.phase = .closing then some ((s.setLease i { l with phase := .gone }).settle l.file, .none) else none
    | none => none
  | .duplicate i =>
    match s.leases[i]? with
    | some l =>
      if 0 < l.holders then
        some ((s.updateFile l.file fun f => { f with duplicates := f.duplicates + 1 }).setLease i
          { l with exporting := l.exporting + 1 }, .duplicated l.file)
      else none
    | none => none
  | .storeExported i =>
    match s.leases[i]? with
    | some l =>
      if 0 < l.exporting then
        some ((s.updateFile l.file fun f => { f with lifetimeFileExported := true }).setLease i
          { l with exporting := l.exporting - 1 }, .exported l.file)
      else none
    | none => none
  | .closeDuplicate g =>
    if 0 < (s.files g).duplicates then
      some ((s.updateFile g fun f => { f with duplicates := f.duplicates - 1 }).settle g, .none)
    else none
  | .fork g =>
    if 0 < s.strong g + (s.files g).duplicates then
      some (s.updateFile g fun f => { f with duplicates := f.duplicates + 1 }, .none)
    else none
  | .peek =>
    match s.registration with
    | none => some (s, .none)
    | some g =>
      if s.strong g = 0 then some ({ s with registration := none }, .none)
      else if maxRefcount < s.strong g then some (s, .upgradePanicked g)
      else some (s.updateFile g fun f => { f with borrowed := f.borrowed + 1 }, .none)
  | .unpeek g =>
    if 0 < (s.files g).borrowed then
      some ((s.updateFile g fun f => { f with borrowed := f.borrowed - 1 }).settle g, .none)
    else none
  | .lockElsewhere => if s.lockFree then some ({ s with lockedElsewhere := true }, .none) else none
  | .unlockElsewhere => if s.lockedElsewhere then some ({ s with lockedElsewhere := false }, .none) else none

def Step (s : Process) (e : Event × Outcome) (t : Process) : Prop := s.step e.1 = some (t, e.2)

/-! ## Counts -/

section Counts

variable {s : Process} {i g : ℕ} {l l' : Lease} {f : OpenFile → OpenFile}

@[simp] theorem updateFile_files (s : Process) (g : ℕ) (f : OpenFile → OpenFile) (k : ℕ) :
    (s.updateFile g f).files k = if k = g then f (s.files g) else s.files k := by
  simp [updateFile, Function.update_apply]

@[simp] theorem updateFile_leases : (s.updateFile g f).leases = s.leases := rfl
@[simp] theorem updateFile_fileCount : (s.updateFile g f).fileCount = s.fileCount := rfl
@[simp] theorem updateFile_registration : (s.updateFile g f).registration = s.registration := rfl
@[simp] theorem updateFile_live (k : ℕ) : (s.updateFile g f).live k = s.live k := rfl
@[simp] theorem updateFile_finals (k : ℕ) : (s.updateFile g f).finals k = s.finals k := rfl
@[simp] theorem updateFile_opened (k : ℕ) : (s.updateFile g f).opened k = s.opened k := rfl
@[simp] theorem setLease_files : (s.setLease i l).files = s.files := rfl
@[simp] theorem setLease_leases : (s.setLease i l).leases = s.leases.set i l := rfl
@[simp] theorem setLease_fileCount : (s.setLease i l).fileCount = s.fileCount := rfl
@[simp] theorem setLease_registration : (s.setLease i l).registration = s.registration := rfl

/-- The counts after one lease has moved. -/
theorem counts_setLease (hl : s.leases[i]? = some l) (l' : Lease) (g : ℕ) :
    (s.setLease i l').live g + l.liveAt g = s.live g + l'.liveAt g ∧
      (s.setLease i l').finals g + l.finalAt g = s.finals g + l'.finalAt g ∧
      (s.setLease i l').opened g + l.openAt g = s.opened g + l'.openAt g :=
  ⟨sum_map_set _ l' hl, sum_map_set _ l' hl, sum_map_set _ l' hl⟩

theorem live_add_finals_le (s : Process) (g : ℕ) : s.live g + s.finals g ≤ s.opened g := by
  unfold live finals opened
  induction s.leases with
  | nil => simp
  | cons l ls ih =>
    have hl : l.liveAt g + l.finalAt g ≤ l.openAt g := by
      unfold Lease.liveAt Lease.finalAt Lease.openAt
      by_cases hg : l.file = g
      · cases hp : l.phase <;> simp [hg]
        split <;> simp
      · simp [hg]
    simp only [List.map_cons, List.sum_cons]
    omega

end Counts

/-! ## What holds of every file -/

/-- A file's owners are counted; its last owner is on its way or has unlocked, once. -/
structure Counted (s : Process) (unlocks g : ℕ) : Prop where
  owners : (s.files g).logicalOwners = s.live g
  few : s.strong g ≤ maxRefcount + 1
  final : s.finals g ≤ 1
  shared : 0 < s.live g → s.finals g = 0
  locked : 0 < s.live g + s.finals g → (s.files g).locked = true
  unlocks : unlocks = if s.live g + s.finals g = 0 ∧ g < s.fileCount ∧ (s.files g).lifetimeFileExported = false then 1 else 0

/-- The invariant; `unlocks` counts the unlocks of each file so far. -/
structure Inv (s : Process) (unlocks : ℕ → ℕ) : Prop where
  counted : ∀ g, s.Counted (unlocks g) g
  file : ∀ l ∈ s.leases, l.file < s.fileCount
  held : ∀ l ∈ s.leases, 0 < l.holders → l.phase = .live
  exporting : ∀ l ∈ s.leases, 0 < l.exporting → 0 < l.holders
  unlocking : ∀ l ∈ s.leases, l.phase = .unlocking → (s.files l.file).lifetimeFileExported = false
  registered : ∀ g, s.registration = some g → 0 < s.live g

/-- What a step tells about the file it names. -/
structure Tells (s : Process) (o : Outcome) (t : Process) : Prop where
  underflowed : ∀ g, o ≠ .underflowed g
  released : ∀ g finalOwner, o = .released g finalOwner → 0 < s.live g ∧ (finalOwner = true ↔ t.live g = 0)
  unlocked : ∀ g, o = .unlocked g → s.live g = 0 ∧ 0 < s.finals g ∧ (s.files g).lifetimeFileExported = false ∧
    (s.files g).locked = true
  coheld : ∀ g, o = .coheld g → 0 < s.live g
  duplicated : ∀ g, o = .duplicated g → 0 < s.live g

section Steps

variable {s t : Process} {c c' : ℕ → ℕ} {u i g : ℕ} {l l' : Lease}

theorem Counted.congr (h : s.Counted u g) (hlive : t.live g = s.live g) (hfinals : t.finals g = s.finals g)
    (hopened : t.opened g = s.opened g) (hfile : t.files g = s.files g) (hcount : g < t.fileCount ↔ g < s.fileCount) :
    t.Counted u g where
  owners := by rw [hfile, hlive]; exact h.owners
  few := by rw [strong, hopened, hfile]; exact h.few
  final := by rw [hfinals]; exact h.final
  shared := by rw [hlive, hfinals]; exact h.shared
  locked := by rw [hlive, hfinals, hfile]; exact h.locked
  unlocks := by rw [hlive, hfinals, hfile]; simpa only [hcount] using h.unlocks

theorem counts_of_leases (h : t.leases = s.leases) (g : ℕ) :
    t.live g = s.live g ∧ t.finals g = s.finals g ∧ t.opened g = s.opened g := by
  simp [live, finals, opened, h]

theorem counts_move (hl : s.leases[i]? = some l) (h : t.leases = s.leases.set i l') (g : ℕ) :
    t.live g + l.liveAt g = s.live g + l'.liveAt g ∧ t.finals g + l.finalAt g = s.finals g + l'.finalAt g ∧
      t.opened g + l.openAt g = s.opened g + l'.openAt g := by
  obtain ⟨h1, h2, h3⟩ := counts_of_leases (s := s.setLease i l') h g
  rw [h1, h2, h3]
  exact counts_setLease hl l' g

theorem Inv.mem (_ : Inv s c) (hl : s.leases[i]? = some l) : l ∈ s.leases := List.mem_of_getElem? hl

theorem live_pos (hl : l ∈ s.leases) (hp : l.phase = .live) : 0 < s.live l.file := by
  obtain ⟨i, hi, rfl⟩ := List.mem_iff_getElem.1 hl
  have := le_sum_map (f := Lease.liveAt s.leases[i].file) (List.getElem?_eq_getElem hi)
  simp only [Lease.liveAt, hp, and_self, if_true] at this
  exact this

theorem finals_pos (hl : l ∈ s.leases) (hp : l.phase = .released true ∨ l.phase = .unlocking) : 0 < s.finals l.file := by
  obtain ⟨i, hi, rfl⟩ := List.mem_iff_getElem.1 hl
  have := le_sum_map (f := Lease.finalAt s.leases[i].file) (List.getElem?_eq_getElem hi)
  simp only [Lease.finalAt, hp, and_self, if_true] at this
  exact this

/-- One lease moves, and only its file changes. -/
theorem Inv.move (h : Inv s c) (hl : s.leases[i]? = some l) (hfile : l'.file = l.file) (ht : t.leases = s.leases.set i l')
    (hcount : t.fileCount = s.fileCount) (hother : ∀ g ≠ l.file, t.files g = s.files g) (hc : ∀ g ≠ l.file, c' g = c g)
    (hhere : t.Counted (c' l.file) l.file) (hheld : 0 < l'.holders → l'.phase = .live)
    (hexporting : 0 < l'.exporting → 0 < l'.holders)
    (hunlocking : ∀ k ∈ t.leases, k.file = l.file → k.phase = .unlocking → (t.files l.file).lifetimeFileExported = false)
    (hregistered : ∀ g, t.registration = some g → 0 < t.live g) : Inv t c' := by
  have hmem : ∀ k ∈ t.leases, k = l' ∨ k ∈ s.leases := fun k hk => by
    rw [ht] at hk
    exact (List.mem_or_eq_of_mem_set hk).symm
  refine ⟨fun g => ?_, fun k hk => ?_, fun k hk => ?_, fun k hk => ?_, fun k hk hp => ?_, hregistered⟩
  · by_cases hg : g = l.file
    · rw [hg]
      exact hhere
    · rw [hc g hg]
      obtain ⟨h1, h2, h3⟩ := counts_move hl ht g
      simp only [Lease.liveAt, Lease.finalAt, Lease.openAt, hfile, Ne.symm hg, false_and, if_false, Nat.add_zero] at h1 h2 h3
      exact (h.counted g).congr h1 h2 h3 (hother g hg) (by rw [hcount])
  · rw [hcount]
    rcases hmem k hk with rfl | hk
    · rw [hfile]
      exact h.file l (h.mem hl)
    · exact h.file k hk
  · rcases hmem k hk with rfl | hk
    · exact hheld
    · exact h.held k hk
  · rcases hmem k hk with rfl | hk
    · exact hexporting
    · exact h.exporting k hk
  · by_cases hg : k.file = l.file
    · rw [hg]
      exact hunlocking k hk hg hp
    · rw [hother _ hg]
      rcases hmem k hk with rfl | hk
      · exact absurd hfile hg
      · exact h.unlocking k hk hp

/-- No lease moves. -/
theorem Inv.still (h : Inv s c) (ht : t.leases = s.leases) (hcount : t.fileCount = s.fileCount)
    (hcounted : ∀ g, t.files g = s.files g ∨ t.Counted (c g) g)
    (hexported : ∀ g, (t.files g).lifetimeFileExported = (s.files g).lifetimeFileExported)
    (hregistered : t.registration = s.registration ∨ t.registration = none) : Inv t c := by
  refine ⟨fun g => ?_, ?_, ?_, ?_, ?_, fun g hg => ?_⟩
  · rcases hcounted g with hf | hf
    · obtain ⟨h1, h2, h3⟩ := counts_of_leases ht g
      exact (h.counted g).congr h1 h2 h3 hf (by rw [hcount])
    · exact hf
  · rw [ht, hcount]
    exact h.file
  · rw [ht]
    exact h.held
  · rw [ht]
    exact h.exporting
  · rw [ht]
    intro k hk hp
    rw [hexported]
    exact h.unlocking k hk hp
  · rw [(counts_of_leases ht g).1]
    rcases hregistered with hr | hr
    · exact h.registered g (hr ▸ hg)
    · rw [hr] at hg
      cases hg

/-- The lock of a file that nobody has open. -/
theorem Inv.settle (h : Inv s c) (g : ℕ) : Inv (s.settle g) c := by
  unfold Process.settle
  split
  · rename_i hnone
    refine h.still rfl rfl (fun k => ?_) (fun k => ?_) (.inl rfl)
    · by_cases hk : k = g
      · subst hk
        have hle := s.live_add_finals_le k
        have hs := h.counted k
        refine .inr ⟨?_, ?_, hs.final, hs.shared, fun hpos => ?_, ?_⟩
        · simpa using hs.owners
        · simpa [strong] using hs.few
        · unfold strong at hnone
          simp only [updateFile_live, updateFile_finals] at hpos
          omega
        · simpa using hs.unlocks
      · exact .inl (by simp [hk])
    · by_cases hk : k = g <;> simp [hk]
  · exact h

theorem counts_join (h : t.leases = s.leases ++ [⟨g, 1, 0, .live⟩]) (k : ℕ) :
    t.live k = s.live k + (if g = k then 1 else 0) ∧ t.finals k = s.finals k ∧
      t.opened k = s.opened k + if g = k then 1 else 0 := by
  refine ⟨?_, ?_, ?_⟩
  · rw [live, h, sum_map_concat]
    simp [live, Lease.liveAt]
  · rw [finals, h, sum_map_concat]
    simp [finals, Lease.finalAt]
  · rw [opened, h, sum_map_concat]
    simp [opened, Lease.openAt]

/-- One lease is added, and only its file changes. -/
theorem Inv.join (h : Inv s c) (hleases : t.leases = s.leases ++ [⟨g, 1, 0, .live⟩])
    (hcount : ∀ k ≠ g, k < t.fileCount ↔ k < s.fileCount) (hg : g < t.fileCount) (hother : ∀ k ≠ g, t.files k = s.files k)
    (hexported : ∀ l ∈ s.leases, l.file = g → (t.files g).lifetimeFileExported = (s.files g).lifetimeFileExported)
    (hhere : t.Counted (c g) g) (hregistered : ∀ k, t.registration = some k → s.registration = some k ∨ k = g) : Inv t c := by
  have hmem : ∀ l ∈ t.leases, l ∈ s.leases ∨ l = ⟨g, 1, 0, .live⟩ := fun l hl => by
    rw [hleases] at hl
    simpa using hl
  refine ⟨fun k => ?_, fun l hl => ?_, fun l hl => ?_, fun l hl => ?_, fun l hl hp => ?_, fun k hk => ?_⟩
  · by_cases hk : k = g
    · rw [hk]
      exact hhere
    · obtain ⟨h1, h2, h3⟩ := counts_join hleases k
      rw [if_neg (Ne.symm hk), Nat.add_zero] at h1 h3
      exact (h.counted k).congr h1 h2 h3 (hother k hk) (hcount k hk)
  · rcases hmem l hl with hl | rfl
    · by_cases hlg : l.file = g
      · rw [hlg]
        exact hg
      · exact (hcount _ hlg).2 (h.file l hl)
    · exact hg
  · rcases hmem l hl with hl | rfl
    · exact h.held l hl
    · exact fun _ => rfl
  · rcases hmem l hl with hl | rfl
    · exact h.exporting l hl
    · exact fun h0 => absurd h0 (by simp)
  · rcases hmem l hl with hl | rfl
    · have hold := h.unlocking l hl hp
      by_cases hlg : l.file = g
      · rw [hlg] at hold ⊢
        rw [hexported l hl hlg, hold]
      · rw [hother _ hlg, hold]
    · cases hp
  · rw [(counts_join hleases k).1]
    rcases hregistered k hk with hk | rfl
    · exact Nat.lt_add_right _ (h.registered k hk)
    · simp

/-- No lease is of a file that is not there yet. -/
theorem Inv.opened_eq_zero (h : Inv s c) (hg : s.fileCount ≤ g) : s.opened g = 0 := by
  unfold opened
  rw [List.sum_eq_zero_iff]
  intro x hx
  obtain ⟨l, hl, rfl⟩ := List.mem_map.1 hx
  have := h.file l hl
  rw [Lease.openAt, if_neg (by omega)]

/-- A new file is locked and has one owner. -/
theorem Inv.openLocked (h : Inv s c) (exported : Bool) {registration : Option ℕ}
    (hreg : registration = s.registration ∨ registration = some s.fileCount) :
    Inv (s.openLocked exported registration) c := by
  have hzero := h.opened_eq_zero le_rfl
  have hle := s.live_add_finals_le s.fileCount
  obtain ⟨h1, h2, h3⟩ := counts_join (t := s.openLocked exported registration) (s := s) (g := s.fileCount) rfl s.fileCount
  rw [if_pos rfl] at h1 h3
  have hfile : (s.openLocked exported registration).files s.fileCount = .new exported := by
    simp [Process.openLocked, addLease]
  refine h.join rfl (fun k hk => ?_) (Nat.lt_succ_self _) (fun k hk => ?_) (fun l hl hlg => ?_)
    ⟨?_, ?_, by omega, fun _ => by omega, fun _ => ?_, ?_⟩ fun k hk => ?_
  · show k < s.fileCount + 1 ↔ _
    omega
  · simp [Process.openLocked, addLease, hk]
  · exact absurd hlg (Nat.ne_of_lt (h.file l hl))
  · rw [hfile, h1]
    simp only [OpenFile.new]
    omega
  · rw [strong, h3, hfile]
    simp only [OpenFile.new, maxRefcount]
    omega
  · rw [hfile]
    rfl
  · rw [(h.counted _).unlocks, if_neg (by omega), if_neg (by omega)]
  · rcases hreg with rfl | rfl
    · exact .inl hk
    · exact .inr (Option.some.inj hk).symm

/-- Co-holding adds an owner to a file that has one. -/
theorem Inv.acquireCoheld (h : Inv s c) (bound : Bool) :
    Inv (s.acquireCoheld bound).1 c ∧ ((s.acquireCoheld bound).2 = .none ∨
      ∃ g, 0 < s.live g ∧ ((s.acquireCoheld bound).2 = .coheld g ∨ (s.acquireCoheld bound).2 = .upgradePanicked g)) := by
  unfold Process.acquireCoheld
  cases hreg : s.registration with
  | none => exact ⟨h, .inl rfl⟩
  | some g =>
    have hlive := h.registered g hreg
    simp only
    split
    · exact ⟨h.still rfl rfl (fun _ => .inl rfl) (fun _ => rfl) (.inr rfl), .inl rfl⟩
    split
    · exact ⟨h, .inr ⟨g, hlive, .inr rfl⟩⟩
    rename_i hfew
    cases bound
    · exact ⟨h, .inl rfl⟩
    refine ⟨?_, .inr ⟨g, hlive, .inl rfl⟩⟩
    simp only [if_true]
    obtain ⟨t, ht⟩ : ∃ t, (s.updateFile g fun f => { f with logicalOwners := (f.logicalOwners + 1) % 2 ^ 64 }).addLease g = t :=
      ⟨_, rfl⟩
    have hfiles : ∀ k, t.files k =
        if k = g then { s.files g with logicalOwners := ((s.files g).logicalOwners + 1) % 2 ^ 64 } else s.files k := by
      intro k
      rw [← ht]
      exact updateFile_files s g (fun f => { f with logicalOwners := (f.logicalOwners + 1) % 2 ^ 64 }) k
    have hg := h.counted g
    have hle := s.live_add_finals_le g
    have hfile : g < s.fileCount := by
      by_contra hge
      have := h.opened_eq_zero (show s.fileCount ≤ g by omega)
      omega
    have hleases : t.leases = s.leases ++ [⟨g, 1, 0, .live⟩] := by rw [← ht]; rfl
    have hcount : t.fileCount = s.fileCount := by rw [← ht]; rfl
    obtain ⟨h1, h2, h3⟩ := counts_join hleases g
    rw [if_pos rfl] at h1 h3
    have howners := hg.owners
    have hbound := hg.few
    simp only [strong, maxRefcount] at hbound hfew
    rw [ht]
    refine h.join hleases (fun k _ => by rw [hcount]) (by omega) (fun k hk => by simp [hfiles, hk]) (fun _ _ _ => by simp [hfiles])
      ⟨?_, ?_, by rw [h2]; exact hg.final, fun _ => by rw [h2]; exact hg.shared hlive, fun _ => ?_, ?_⟩ fun k hk => .inl ?_
    · simp only [hfiles, if_true, h1, howners]
      omega
    · simp only [strong, hfiles, h3, if_true, maxRefcount]
      omega
    · simp only [hfiles, if_true]
      exact hg.locked (by omega)
    · rw [hg.unlocks, if_neg (by omega), if_neg (by omega)]
    · rw [← hk, ← ht]
      rfl

/-- A lease that keeps its phase, and a file that keeps what is counted of it. -/
theorem Inv.hold (h : Inv s c) (hl : s.leases[i]? = some l) (hfile : l'.file = l.file) (hphase : l'.phase = l.phase)
    (hheld : 0 < l'.holders → l'.phase = .live) (hexporting : 0 < l'.exporting → 0 < l'.holders) {o : OpenFile}
    (hleases : t.leases = s.leases.set i l') (hcount : t.fileCount = s.fileCount) (hreg : t.registration = s.registration)
    (hfiles : ∀ k, t.files k = if k = l.file then o else s.files k)
    (ho : o.logicalOwners = (s.files l.file).logicalOwners ∧ o.borrowed = (s.files l.file).borrowed ∧
      o.locked = (s.files l.file).locked)
    (hexp : o.lifetimeFileExported = (s.files l.file).lifetimeFileExported ∨ 0 < s.live l.file) : Inv t c := by
  have hsame : ∀ k, t.live k = s.live k ∧ t.finals k = s.finals k ∧ t.opened k = s.opened k := by
    intro k
    have h1 := counts_move hl hleases k
    simpa only [Lease.liveAt, Lease.finalAt, Lease.openAt, hfile, hphase, Nat.add_right_cancel_iff] using h1
  obtain ⟨h1, h2, h3⟩ := hsame l.file
  have hg := h.counted l.file
  have hhere : t.files l.file = o := by simp [hfiles]
  refine h.move hl hfile hleases hcount (fun k hk => by simp [hfiles, hk]) (fun _ _ => rfl) ⟨?_, ?_, ?_, ?_, ?_, ?_⟩ hheld
    hexporting (fun k hk hkf hp => ?_) fun k hk => ?_
  · rw [hhere, h1, ho.1]
    exact hg.owners
  · rw [strong, hhere, h3, ho.2.1]
    exact hg.few
  · rw [h2]
    exact hg.final
  · rw [h1, h2]
    exact hg.shared
  · rw [hhere, h1, h2, ho.2.2]
    exact hg.locked
  · rw [hg.unlocks, h1, h2, hhere, hcount]
    rcases hexp with he | he
    · rw [he]
    · rw [if_neg (by omega), if_neg (by omega)]
  · have hpos := finals_pos hk (.inr hp)
    rw [hkf, h2] at hpos
    rcases hexp with he | he
    · rw [hhere, he]
      rw [hleases] at hk
      rcases List.mem_or_eq_of_mem_set hk with hk | rfl
      · rw [← hkf]
        exact h.unlocking k hk hp
      · exact h.unlocking l (h.mem hl) (hphase ▸ hp)
    · have := hg.shared he
      omega
  · rw [(hsame k).1]
    exact h.registered k (hreg ▸ hk)

/-- The last owner takes the registration away; the others leave an owner behind. -/
theorem Inv.releaseOwner (h : Inv s c) (hl : s.leases[i]? = some l) (hholders : l.holders = 0) (hphase : l.phase = .live) :
    Inv (s.releaseOwner i l).1 c ∧ ∃ finalOwner, (s.releaseOwner i l).2 = .released l.file finalOwner ∧
      (finalOwner = true ↔ (s.releaseOwner i l).1.live l.file = 0) := by
  have hg := h.counted l.file
  have hlive : 0 < s.live l.file := live_pos (h.mem hl) hphase
  have hle := s.live_add_finals_le l.file
  have hfew := hg.few
  have howners := hg.owners
  have hshared := hg.shared hlive
  have hexporting : l.exporting = 0 := by
    have := h.exporting l (h.mem hl)
    omega
  obtain ⟨t, ht⟩ : ∃ t, (s.releaseOwner i l).1 = t := ⟨_, rfl⟩
  obtain ⟨finalOwner, hfinal⟩ : ∃ b, ((s.files l.file).logicalOwners == 1) = b := ⟨_, rfl⟩
  have hleases : t.leases = s.leases.set i { l with phase := .released finalOwner } := by rw [← ht, ← hfinal]; rfl
  have hcount : t.fileCount = s.fileCount := by rw [← ht]; rfl
  have hfiles : ∀ k, t.files k = if k = l.file then
      { s.files l.file with logicalOwners := ((s.files l.file).logicalOwners + (2 ^ 64 - 1)) % 2 ^ 64 } else s.files k := by
    intro k
    rw [← ht]
    exact updateFile_files s l.file (fun f => { f with logicalOwners := (f.logicalOwners + (2 ^ 64 - 1)) % 2 ^ 64 }) k
  have hreg : t.registration = if finalOwner && s.registration.any fun g => g == l.file || s.strong g == 0 then none
      else s.registration := by rw [← ht, ← hfinal]; rfl
  have hfinal' : finalOwner = true ↔ s.live l.file = 1 := by rw [← hfinal, howners, beq_iff_eq]
  obtain ⟨h1, h2, h3⟩ := counts_move hl hleases l.file
  have hhere : t.files l.file =
      { s.files l.file with logicalOwners := ((s.files l.file).logicalOwners + (2 ^ 64 - 1)) % 2 ^ 64 } := by simp [hfiles]
  -- one owner less; a last owner more if it was the only one
  have hcounts : t.live l.file + 1 = s.live l.file ∧ t.finals l.file = (if finalOwner then 1 else 0) ∧
      t.opened l.file = s.opened l.file := by
    cases finalOwner <;> simp [Lease.liveAt, Lease.finalAt, Lease.openAt, hphase, hshared] at h1 h2 h3 ⊢ <;> omega
  obtain ⟨hlive', hfinals', hopened'⟩ := hcounts
  unfold strong maxRefcount at hfew
  rw [ht]
  refine ⟨h.move hl (show Lease.file { l with phase := .released finalOwner } = l.file from rfl) hleases hcount
    (fun k hk => by simp [hfiles, hk]) (fun _ _ => rfl) ⟨?_, ?_, ?_, ?_, ?_, ?_⟩
    (fun h0 => absurd h0 (by simp [hholders])) (fun h0 => absurd h0 (by simp [hexporting])) (fun k hk hkf hp => ?_)
    fun k hk => ?_, finalOwner, ?_, ?_⟩
  · rw [hhere]
    simp only [howners]
    omega
  · rw [strong, hhere, hopened', maxRefcount]
    exact hfew
  · rw [hfinals']
    split <;> omega
  · intro hpos
    rw [hfinals', if_neg]
    rw [hfinal']
    omega
  · rw [hhere]
    exact fun _ => hg.locked (by omega)
  · rw [hg.unlocks, if_neg (by omega), if_neg]
    rintro ⟨h0, -⟩
    rw [hfinals'] at h0
    split at h0
    · omega
    · rename_i hne
      rw [hfinal'] at hne
      omega
  · rw [hleases] at hk
    rcases List.mem_or_eq_of_mem_set hk with hk | rfl
    · have := finals_pos hk (.inr hp)
      rw [hkf] at this
      omega
    · cases hp
  · rw [hreg] at hk
    by_cases hkl : k = l.file
    · subst hkl
      by_cases hf : finalOwner = true
      · have hsome : s.registration = some l.file := by
          split at hk
          · cases hk
          · exact hk
        simp [hf, hsome] at hk
      · rw [hfinal'] at hf
        omega
    · have hsome : s.registration = some k := by
        split at hk
        · cases hk
        · exact hk
      have hmove := (counts_move hl hleases k).1
      simp only [Lease.liveAt, Ne.symm hkl, false_and, if_false, Nat.add_zero] at hmove
      rw [hmove]
      exact h.registered k hsome
  · rw [← hfinal]
    simp only [Process.releaseOwner]
    rw [if_neg (by omega)]
  · rw [hfinal']
    omega

/-- A destructor that goes on after its release. -/
theorem Inv.proceed (h : Inv s c) (hl : s.leases[i]? = some l) (hdead : l.phase ≠ .live) {next : Phase}
    (hleases : t.leases = s.leases.set i { l with phase := next }) (hcount : t.fileCount = s.fileCount)
    (hreg : t.registration = s.registration) (hother : ∀ k ≠ l.file, t.files k = s.files k) (hc : ∀ k ≠ l.file, c' k = c k)
    (hhere : t.Counted (c' l.file) l.file) (hnext : next ≠ .live)
    (hexp : (t.files l.file).lifetimeFileExported = (s.files l.file).lifetimeFileExported)
    (hunlocking : next = .unlocking → (s.files l.file).lifetimeFileExported = false) : Inv t c' := by
  have hmem := h.mem hl
  refine h.move hl (show Lease.file { l with phase := next } = l.file from rfl) hleases hcount hother hc hhere (fun h0 => absurd (h.held l hmem h0) hdead)
    (fun h0 => absurd (h.held l hmem (h.exporting l hmem h0)) hdead) (fun k hk hkf hp => ?_) fun k hk => ?_
  · rw [hexp]
    rw [hleases] at hk
    rcases List.mem_or_eq_of_mem_set hk with hk | rfl
    · rw [← hkf]
      exact h.unlocking k hk hp
    · exact hunlocking hp
  · have hmove := (counts_move hl hleases k).1
    simp only [Lease.liveAt, hdead, hnext, and_false, if_false, Nat.add_zero] at hmove
    rw [hmove]
    exact h.registered k (hreg ▸ hk)

/-- A scanner's reference or a duplicated descriptor comes or goes. -/
theorem Inv.recount (h : Inv s c) (g : ℕ) {f : OpenFile → OpenFile}
    (hf : ∀ o : OpenFile, (f o).logicalOwners = o.logicalOwners ∧ (f o).lifetimeFileExported = o.lifetimeFileExported ∧
      (f o).locked = o.locked) (hfew : s.opened g + (f (s.files g)).borrowed ≤ maxRefcount + 1) : Inv (s.updateFile g f) c := by
  refine h.still rfl rfl (fun k => ?_) (fun k => ?_) (.inl rfl)
  · by_cases hk : k = g
    · subst hk
      have hs := h.counted k
      refine .inr ⟨?_, ?_, hs.final, hs.shared, ?_, ?_⟩
      · simpa [(hf _).1] using hs.owners
      · simpa [strong] using hfew
      · simpa [(hf _).2.2] using hs.locked
      · simpa [(hf _).2.1] using hs.unlocks
    · exact .inl (by simp [hk])
  · by_cases hk : k = g <;> simp [hk, (hf _).2.1]

theorem tells_none (s t : Process) : Tells s .none t := ⟨nofun, nofun, nofun, nofun, nofun⟩

/-- The last owner looks at the export flag. -/
theorem Inv.checkExported (h : Inv s c) (hl : s.leases[i]? = some l) {finalOwner : Bool}
    (hphase : l.phase = .released finalOwner) :
    Inv (s.setLease i { l with phase :=
      if !finalOwner || (s.files l.file).lifetimeFileExported then .closing else .unlocking }) c := by
  have hg := h.counted l.file
  obtain ⟨next, hnext⟩ : ∃ next, (if !finalOwner || (s.files l.file).lifetimeFileExported then Phase.closing else .unlocking) =
    next := ⟨_, rfl⟩
  obtain ⟨t, ht⟩ : ∃ t, s.setLease i { l with phase := next } = t := ⟨_, rfl⟩
  have hleases : t.leases = s.leases.set i { l with phase := next } := by rw [← ht]; rfl
  have hfiles : t.files = s.files := by rw [← ht]; rfl
  have hcount : t.fileCount = s.fileCount := by rw [← ht]; rfl
  obtain ⟨h1, h2, h3⟩ := counts_move hl hleases l.file
  rw [hnext, ht]
  have hne : next ≠ .live := by
    rw [← hnext]
    split <;> nofun
  have hlive : t.live l.file = s.live l.file := by
    simpa [Lease.liveAt, hphase, hne] using h1
  have hopened : t.opened l.file = s.opened l.file := by
    have hgone : next ≠ .gone := by
      rw [← hnext]
      split <;> nofun
    simpa [Lease.openAt, hphase, hgone] using h3
  have hfinals : t.finals l.file ≤ s.finals l.file ∧ (t.finals l.file = s.finals l.file ∨
      (s.files l.file).lifetimeFileExported = true) := by
    cases finalOwner
    · simp only [Bool.not_false, Bool.true_or, if_true] at hnext
      subst hnext
      simp [Lease.finalAt, hphase] at h2
      omega
    · cases hexp : (s.files l.file).lifetimeFileExported
      · simp only [hexp, Bool.not_true, Bool.or_self, Bool.false_eq_true, if_false] at hnext
        subst hnext
        simp [Lease.finalAt, hphase] at h2
        omega
      · simp only [hexp, Bool.or_true, if_true] at hnext
        subst hnext
        simp [Lease.finalAt, hphase] at h2
        exact ⟨by omega, .inr rfl⟩
  have hfinal := hg.final
  refine h.proceed hl (by rw [hphase]; nofun) hleases hcount (by rw [← ht]; rfl) (fun _ _ => by rw [hfiles]) (fun _ _ => rfl)
    ⟨?_, ?_, by omega, fun hpos => ?_, fun hpos => ?_, ?_⟩ hne (by rw [hfiles]) fun hu => ?_
  · rw [hfiles, hlive]
    exact hg.owners
  · rw [strong, hfiles, hopened]
    exact hg.few
  · have := hg.shared (hlive ▸ hpos)
    omega
  · rw [hfiles]
    exact hg.locked (by omega)
  · rw [hg.unlocks, hfiles, hlive, hcount]
    rcases hfinals.2 with hf | hf
    · rw [hf]
    · simp [hf]
  · rw [← hnext] at hu
    split at hu
    · cases hu
    · rename_i hc
      simp only [Bool.or_eq_true, not_or, Bool.not_eq_true] at hc
      exact hc.2

/-- The one unlock of a file. -/
theorem Inv.unlock (h : Inv s c) (hl : s.leases[i]? = some l) (hphase : l.phase = .unlocking) (succeeded : Bool) :
    Inv ((s.updateFile l.file fun f => { f with locked := !succeeded }).setLease i { l with phase := .closing })
        (fun g => c g + if l.file = g then 1 else 0) ∧
      s.live l.file = 0 ∧ 0 < s.finals l.file ∧ (s.files l.file).lifetimeFileExported = false ∧ (s.files l.file).locked = true := by
  have hg := h.counted l.file
  have hmem := h.mem hl
  have hpos := finals_pos hmem (.inr hphase)
  have hone := hg.final
  have hexp := h.unlocking l hmem hphase
  have hlive : s.live l.file = 0 := by
    by_contra hne
    have := hg.shared (by omega)
    omega
  refine ⟨?_, hlive, hpos, hexp, hg.locked (by omega)⟩
  obtain ⟨t, ht⟩ : ∃ t, (s.updateFile l.file fun f => { f with locked := !succeeded }).setLease i
    { l with phase := .closing } = t := ⟨_, rfl⟩
  have hleases : t.leases = s.leases.set i { l with phase := .closing } := by rw [← ht]; rfl
  have hcount : t.fileCount = s.fileCount := by rw [← ht]; rfl
  have hfiles : ∀ k, t.files k = if k = l.file then { s.files l.file with locked := !succeeded } else s.files k := by
    intro k
    rw [← ht]
    exact updateFile_files s l.file (fun f => { f with locked := !succeeded }) k
  have hhere : t.files l.file = { s.files l.file with locked := !succeeded } := by simp [hfiles]
  obtain ⟨h1, h2, h3⟩ := counts_move hl hleases l.file
  simp [Lease.liveAt, Lease.finalAt, Lease.openAt, hphase] at h1 h2 h3
  rw [ht]
  refine h.proceed hl (by rw [hphase]; nofun) hleases hcount (by rw [← ht]; rfl) (fun k hk => by simp [hfiles, hk])
    (fun k hk => by simp [Ne.symm hk]) ⟨?_, ?_, by omega, fun _ => by omega, fun _ => by omega, ?_⟩ nofun (by rw [hhere])
    nofun
  · rw [hhere, h1]
    exact hg.owners
  · rw [strong, hhere, h3]
    exact hg.few
  · have hf := h.file l hmem
    simp only [if_true]
    rw [hg.unlocks, if_neg (by omega), if_pos]
    refine ⟨by omega, by omega, ?_⟩
    rw [hhere]
    exact hexp

theorem Inv.close (h : Inv s c) (hl : s.leases[i]? = some l) (hphase : l.phase = .closing) :
    Inv (s.setLease i { l with phase := .gone }) c := by
  have hg := h.counted l.file
  obtain ⟨h1, h2, h3⟩ := counts_move (t := s.setLease i { l with phase := .gone }) hl rfl l.file
  simp [Lease.liveAt, Lease.finalAt, Lease.openAt, hphase] at h1 h2 h3
  have hfew := hg.few
  unfold strong at hfew
  refine h.proceed hl (by rw [hphase]; nofun) rfl rfl rfl (fun _ _ => rfl) (fun _ _ => rfl)
    ⟨?_, ?_, ?_, ?_, ?_, ?_⟩ nofun rfl nofun
  · rw [h1]
    exact hg.owners
  · unfold strong
    rw [setLease_files]
    omega
  · rw [h2]
    exact hg.final
  · rw [h1, h2]
    exact hg.shared
  · rw [h1, h2]
    exact hg.locked
  · rw [hg.unlocks, h1, h2]
    rfl

/-- What every step keeps, and what it tells. -/
theorem Inv.step {e : Event × Outcome} (h : Inv s c) (hstep : Step s e t) :
    Inv t (fun g => c g + if e.2 = .unlocked g then 1 else 0) ∧ Tells s e.2 t := by
  obtain ⟨e, o⟩ := e
  unfold Step at hstep
  -- a step that does not unlock leaves the count as it is
  have hquiet : ∀ {o : Outcome}, (∀ g, o ≠ .unlocked g) → Inv t c →
      Inv t (fun g => c g + if o = .unlocked g then 1 else 0) := by
    intro o ho ht
    simpa [ho] using ht
  have hnone : Inv t c → o = .none → Inv t (fun g => c g + if o = .unlocked g then 1 else 0) ∧ Tells s o t := by
    rintro ht rfl
    exact ⟨hquiet (fun _ => nofun) ht, tells_none s t⟩
  cases e with
  | acquire =>
    rw [Process.step, Option.ite_none_right_eq_some, Option.some.injEq, Prod.mk.injEq] at hstep
    obtain ⟨-, rfl, rfl⟩ := hstep
    refine ⟨hquiet (fun _ => nofun) (h.openLocked false ?_), ⟨nofun, nofun, nofun, nofun, nofun⟩⟩
    split
    · exact .inr rfl
    · exact .inl rfl
  | acquireExisting =>
    rw [Process.step, Option.ite_none_right_eq_some, Option.some.injEq, Prod.mk.injEq] at hstep
    obtain ⟨-, rfl, rfl⟩ := hstep
    exact ⟨hquiet (fun _ => nofun) (h.openLocked false (.inl rfl)), ⟨nofun, nofun, nofun, nofun, nofun⟩⟩
  | inherit =>
    rw [Process.step, Option.ite_none_right_eq_some, Option.some.injEq, Prod.mk.injEq] at hstep
    obtain ⟨-, rfl, rfl⟩ := hstep
    exact ⟨hquiet (fun _ => nofun) ((h.openLocked true (.inl rfl)).still rfl rfl (fun _ => .inl rfl) (fun _ => rfl) (.inl rfl)),
      ⟨nofun, nofun, nofun, nofun, nofun⟩⟩
  | cohold bound =>
    rw [Process.step, Option.ite_none_right_eq_some, Option.some.injEq] at hstep
    obtain ⟨-, hstep⟩ := hstep
    obtain ⟨hinv, ho⟩ := h.acquireCoheld bound
    rw [hstep] at hinv ho
    rcases ho with ho | ⟨g, hlive, ho | ho⟩
    · exact hnone hinv ho
    · simp only at ho
      subst ho
      refine ⟨hquiet (fun _ => nofun) hinv, nofun, nofun, nofun, fun k hk => ?_, nofun⟩
      cases hk
      exact hlive
    · simp only at ho
      subst ho
      exact ⟨hquiet (fun _ => nofun) hinv, ⟨nofun, nofun, nofun, nofun, nofun⟩⟩
  | clone i =>
    simp only [Process.step] at hstep
    split at hstep
    · rename_i l hl
      rw [Option.ite_none_right_eq_some, Option.some.injEq, Prod.mk.injEq] at hstep
      obtain ⟨hheld, rfl, rfl⟩ := hstep
      exact hnone (h.hold hl (show Lease.file { l with holders := l.holders + 1 } = l.file from rfl) rfl
        (fun _ => h.held l (h.mem hl) hheld) (fun _ => Nat.succ_pos _) rfl rfl rfl (fun k => by split <;> simp_all)
        ⟨rfl, rfl, rfl⟩ (.inl rfl)) rfl
    · cases hstep
  | drop i =>
    simp only [Process.step] at hstep
    split at hstep
    · rename_i l hl
      rw [Option.ite_none_right_eq_some, Option.some.injEq, Prod.mk.injEq] at hstep
      obtain ⟨⟨hheld, hborrow⟩, rfl, rfl⟩ := hstep
      refine hnone (h.hold hl (show Lease.file { l with holders := l.holders - 1 } = l.file from rfl) rfl
        (fun _ => h.held l (h.mem hl) hheld) (fun hexp => ?_) rfl rfl rfl (fun k => by split <;> simp_all)
        ⟨rfl, rfl, rfl⟩ (.inl rfl)) rfl
      simp only at hexp ⊢
      omega
    · cases hstep
  | release i =>
    simp only [Process.step] at hstep
    split at hstep
    · rename_i l hl
      rw [Option.ite_none_right_eq_some, Option.some.injEq] at hstep
      obtain ⟨⟨hheld, hphase⟩, hstep⟩ := hstep
      obtain ⟨hinv, finalOwner, ho, hfinal⟩ := h.releaseOwner hl hheld hphase
      rw [hstep] at hinv ho hfinal
      simp only at ho
      subst ho
      refine ⟨hquiet (fun _ => nofun) hinv, nofun, fun g f hg => ?_, nofun, nofun, nofun⟩
      cases hg
      exact ⟨live_pos (h.mem hl) hphase, hfinal⟩
    · cases hstep
  | checkExported i =>
    simp only [Process.step] at hstep
    split at hstep
    · rename_i l hl
      split at hstep
      · rename_i finalOwner hphase
        rw [Option.some.injEq, Prod.mk.injEq] at hstep
        obtain ⟨rfl, rfl⟩ := hstep
        exact hnone (h.checkExported hl hphase) rfl
      · cases hstep
    · cases hstep
  | unlock i succeeded =>
    simp only [Process.step] at hstep
    split at hstep
    · rename_i l hl
      rw [Option.ite_none_right_eq_some, Option.some.injEq, Prod.mk.injEq] at hstep
      obtain ⟨hphase, rfl, rfl⟩ := hstep
      obtain ⟨hinv, hfacts⟩ := h.unlock hl hphase succeeded
      refine ⟨by simpa using hinv, nofun, nofun, fun g hg => ?_, nofun, nofun⟩
      cases hg
      exact hfacts
    · cases hstep
  | close i =>
    simp only [Process.step] at hstep
    split at hstep
    · rename_i l hl
      rw [Option.ite_none_right_eq_some, Option.some.injEq, Prod.mk.injEq] at hstep
      obtain ⟨hphase, rfl, rfl⟩ := hstep
      exact hnone ((h.close hl hphase).settle l.file) rfl
    · cases hstep
  | duplicate i =>
    simp only [Process.step] at hstep
    split at hstep
    · rename_i l hl
      rw [Option.ite_none_right_eq_some, Option.some.injEq, Prod.mk.injEq] at hstep
      obtain ⟨hheld, rfl, rfl⟩ := hstep
      have hphase := h.held l (h.mem hl) hheld
      refine ⟨hquiet (fun _ => nofun) (h.hold hl (show Lease.file { l with exporting := l.exporting + 1 } = l.file from rfl) rfl
        (fun _ => hphase) (fun _ => hheld) rfl rfl rfl
        (fun k => updateFile_files s l.file (fun f => { f with duplicates := f.duplicates + 1 }) k) ⟨rfl, rfl, rfl⟩ (.inl rfl)),
        nofun, nofun, nofun, nofun, fun g hg => ?_⟩
      cases hg
      exact live_pos (h.mem hl) hphase
    · cases hstep
  | storeExported i =>
    simp only [Process.step] at hstep
    split at hstep
    · rename_i l hl
      rw [Option.ite_none_right_eq_some, Option.some.injEq, Prod.mk.injEq] at hstep
      obtain ⟨hexp, rfl, rfl⟩ := hstep
      have hheld := h.exporting l (h.mem hl) hexp
      have hphase := h.held l (h.mem hl) hheld
      exact ⟨hquiet (fun _ => nofun) (h.hold hl (show Lease.file { l with exporting := l.exporting - 1 } = l.file from rfl) rfl
        (fun _ => hphase) (fun _ => hheld) rfl rfl rfl
        (fun k => updateFile_files s l.file (fun f => { f with lifetimeFileExported := true }) k) ⟨rfl, rfl, rfl⟩
        (.inr (live_pos (h.mem hl) hphase))), nofun, nofun, nofun, nofun, nofun⟩
    · cases hstep
  | closeDuplicate g =>
    rw [Process.step, Option.ite_none_right_eq_some, Option.some.injEq, Prod.mk.injEq] at hstep
    obtain ⟨-, rfl, rfl⟩ := hstep
    exact hnone ((h.recount g (f := fun f => { f with duplicates := f.duplicates - 1 }) (fun _ => ⟨rfl, rfl, rfl⟩)
      (h.counted g).few).settle g) rfl
  | fork g =>
    rw [Process.step, Option.ite_none_right_eq_some, Option.some.injEq, Prod.mk.injEq] at hstep
    obtain ⟨-, rfl, rfl⟩ := hstep
    exact hnone (h.recount g (fun _ => ⟨rfl, rfl, rfl⟩) (h.counted g).few) rfl
  | peek =>
    simp only [Process.step] at hstep
    split at hstep
    · cases hstep
      exact hnone h rfl
    rename_i g hreg
    split at hstep
    · cases hstep
      exact hnone (h.still rfl rfl (fun _ => .inl rfl) (fun _ => rfl) (.inr rfl)) rfl
    split at hstep
    · cases hstep
      exact ⟨hquiet (fun _ => nofun) h, ⟨nofun, nofun, nofun, nofun, nofun⟩⟩
    · rename_i hfew
      cases hstep
      refine hnone (h.recount g (fun _ => ⟨rfl, rfl, rfl⟩) ?_) rfl
      unfold strong at hfew
      simp only
      omega
  | unpeek g =>
    rw [Process.step, Option.ite_none_right_eq_some, Option.some.injEq, Prod.mk.injEq] at hstep
    obtain ⟨-, rfl, rfl⟩ := hstep
    have hfew := (h.counted g).few
    unfold strong at hfew
    refine hnone ((h.recount g (f := fun f => { f with borrowed := f.borrowed - 1 }) (fun _ => ⟨rfl, rfl, rfl⟩) ?_).settle g) rfl
    simp only
    omega
  | lockElsewhere =>
    rw [Process.step, Option.ite_none_right_eq_some, Option.some.injEq, Prod.mk.injEq] at hstep
    obtain ⟨-, rfl, rfl⟩ := hstep
    exact hnone (h.still rfl rfl (fun _ => .inl rfl) (fun _ => rfl) (.inl rfl)) rfl
  | unlockElsewhere =>
    rw [Process.step, Option.ite_none_right_eq_some, Option.some.injEq, Prod.mk.injEq] at hstep
    obtain ⟨-, rfl, rfl⟩ := hstep
    exact hnone (h.still rfl rfl (fun _ => .inl rfl) (fun _ => rfl) (.inl rfl)) rfl

end Steps

/-! ## Exports -/

section Exports

variable {s t : Process} {c : ℕ → ℕ} {i g : ℕ} {l l' : Lease}

/-- A file has been duplicated for somebody else: the flag is set or about to be. -/
def Transferring (s : Process) (g : ℕ) : Prop :=
  g < s.fileCount ∧ ((s.files g).lifetimeFileExported = true ∨ ∃ l ∈ s.leases, l.file = g ∧ 0 < l.exporting)

theorem Transferring.grow (h : Transferring s g) (hcount : s.fileCount ≤ t.fileCount)
    (hfiles : ∀ g < s.fileCount, (t.files g).lifetimeFileExported = (s.files g).lifetimeFileExported)
    (hleases : ∀ l ∈ s.leases, l ∈ t.leases) : Transferring t g := by
  obtain ⟨hlt, h⟩ := h
  refine ⟨by omega, ?_⟩
  rcases h with h | ⟨l, hl, hfile⟩
  · exact .inl (by rw [hfiles g hlt, h])
  · exact .inr ⟨l, hleases l hl, hfile⟩

theorem Transferring.settle (h : Transferring s g) (k : ℕ) : Transferring (s.settle k) g := by
  unfold Process.settle
  split
  · refine h.grow le_rfl (fun j _ => ?_) fun _ => id
    by_cases hj : j = k <;> simp [hj]
  · exact h

/-- A lease that moves keeps its calls in flight unless one has set the flag. -/
theorem Transferring.set (h : Transferring s g) (hl : s.leases[i]? = some l) (hleases : t.leases = s.leases.set i l')
    (hcount : t.fileCount = s.fileCount)
    (hfiles : ∀ g, (s.files g).lifetimeFileExported = true → (t.files g).lifetimeFileExported = true)
    (hfile : l'.file = l.file) (hexporting : l.exporting ≤ l'.exporting ∨ (t.files l.file).lifetimeFileExported = true) :
    Transferring t g := by
  obtain ⟨hlt, h⟩ := h
  refine ⟨by omega, ?_⟩
  rcases h with h | ⟨k, hk, rfl, hpos⟩
  · exact .inl (hfiles g h)
  obtain ⟨j, hj, rfl⟩ := List.mem_iff_getElem.1 hk
  by_cases hij : i = j
  · subst hij
    obtain rfl : s.leases[i] = l := by simpa [hj] using hl
    rcases hexporting with hle | hexp
    · refine .inr ⟨l', ?_, hfile, by omega⟩
      rw [hleases]
      exact List.mem_set hj l'
    · exact .inl hexp
  · refine .inr ⟨s.leases[j], ?_, rfl, hpos⟩
    rw [hleases, List.mem_iff_getElem]
    exact ⟨j, by simpa using hj, List.getElem_set_of_ne hij _ _⟩

theorem Transferring.step {e : Event × Outcome} (h : Inv s c) (hstep : Step s e t)
    (hg : Transferring s g ∨ e.2 = .duplicated g) : Transferring t g := by
  obtain ⟨e, o⟩ := e
  unfold Step at hstep
  cases e with
  | acquire | acquireExisting | inherit =>
    rw [Process.step, Option.ite_none_right_eq_some, Option.some.injEq, Prod.mk.injEq] at hstep
    obtain ⟨-, rfl, rfl⟩ := hstep
    rcases hg with hg | hg
    · refine hg.grow (Nat.le_succ _) (fun k hk => ?_) fun l hl => List.mem_append_left _ hl
      simp [openLocked, addLease, Nat.ne_of_lt hk]
    · cases hg
  | cohold bound =>
    rw [Process.step, Option.ite_none_right_eq_some, Option.some.injEq] at hstep
    obtain ⟨-, hstep⟩ := hstep
    unfold Process.acquireCoheld at hstep
    have hno : o ≠ .duplicated g := by
      rintro rfl
      repeat' split at hstep
      all_goals cases hstep
    have hs := hg.resolve_right hno
    split at hstep
    · cases hstep
      exact hs
    rename_i k hreg
    repeat' split at hstep
    all_goals
      cases hstep
      first
        | exact hs
        | exact hs.grow le_rfl (fun _ _ => rfl) fun _ => id
        | refine hs.grow le_rfl (fun j _ => ?_) fun l hl => List.mem_append_left _ hl
          by_cases hj : j = k <;> simp [addLease, hj]
  | peek =>
    simp only [Process.step] at hstep
    have hno : o ≠ .duplicated g := by
      rintro rfl
      repeat' split at hstep
      all_goals cases hstep
    have hs := hg.resolve_right hno
    split at hstep
    · cases hstep
      exact hs
    rename_i k hreg
    repeat' split at hstep
    all_goals
      cases hstep
      first
        | exact hs
        | exact hs.grow le_rfl (fun _ _ => rfl) fun _ => id
        | refine hs.grow le_rfl (fun j _ => ?_) fun _ => id
          by_cases hj : j = k <;> simp [hj]
  | closeDuplicate k | unpeek k =>
    rw [Process.step, Option.ite_none_right_eq_some, Option.some.injEq, Prod.mk.injEq] at hstep
    obtain ⟨-, rfl, rfl⟩ := hstep
    apply Transferring.settle
    refine (hg.resolve_right nofun).grow le_rfl (fun j _ => ?_) fun _ => id
    by_cases hj : j = k <;> simp [hj]
  | fork k =>
    rw [Process.step, Option.ite_none_right_eq_some, Option.some.injEq, Prod.mk.injEq] at hstep
    obtain ⟨-, rfl, rfl⟩ := hstep
    refine (hg.resolve_right nofun).grow le_rfl (fun j _ => ?_) fun _ => id
    by_cases hj : j = k <;> simp [hj]
  | lockElsewhere | unlockElsewhere =>
    rw [Process.step, Option.ite_none_right_eq_some, Option.some.injEq, Prod.mk.injEq] at hstep
    obtain ⟨-, rfl, rfl⟩ := hstep
    exact (hg.resolve_right nofun).grow le_rfl (fun _ _ => rfl) fun _ => id
  | clone i | drop i =>
    simp only [Process.step] at hstep
    split at hstep
    · rename_i l hl
      rw [Option.ite_none_right_eq_some, Option.some.injEq, Prod.mk.injEq] at hstep
      obtain ⟨-, rfl, rfl⟩ := hstep
      exact (hg.resolve_right nofun).set hl rfl rfl (fun _ => id) rfl (.inl le_rfl)
    · cases hstep
  | release i =>
    simp only [Process.step] at hstep
    split at hstep
    · rename_i l hl
      rw [Option.ite_none_right_eq_some, Option.some.injEq] at hstep
      obtain ⟨-, hstep⟩ := hstep
      have hno : o ≠ .duplicated g := by
        rintro rfl
        have := congrArg Prod.snd hstep
        simp only [Process.releaseOwner] at this
        split at this <;> cases this
      obtain rfl : (s.releaseOwner i l).1 = t := congrArg Prod.fst hstep
      refine (hg.resolve_right hno).set hl rfl rfl (fun k hk => ?_) rfl (.inl le_rfl)
      by_cases hkl : k = l.file
      · subst hkl
        simpa [Process.releaseOwner] using hk
      · simpa [Process.releaseOwner, hkl] using hk
    · cases hstep
  | checkExported i =>
    simp only [Process.step] at hstep
    split at hstep
    · rename_i l hl
      split at hstep
      · cases hstep
        exact (hg.resolve_right nofun).set hl rfl rfl (fun _ => id) rfl (.inl le_rfl)
      · cases hstep
    · cases hstep
  | unlock i succeeded =>
    simp only [Process.step] at hstep
    split at hstep
    · rename_i l hl
      rw [Option.ite_none_right_eq_some, Option.some.injEq, Prod.mk.injEq] at hstep
      obtain ⟨-, rfl, rfl⟩ := hstep
      refine (hg.resolve_right nofun).set hl rfl rfl (fun k hk => ?_) rfl (.inl le_rfl)
      by_cases hkl : k = l.file
      · subst hkl
        simpa using hk
      · simpa [hkl] using hk
    · cases hstep
  | close i =>
    simp only [Process.step] at hstep
    split at hstep
    · rename_i l hl
      rw [Option.ite_none_right_eq_some, Option.some.injEq, Prod.mk.injEq] at hstep
      obtain ⟨-, rfl, rfl⟩ := hstep
      exact ((hg.resolve_right nofun).set (t := s.setLease i { l with phase := .gone }) hl rfl rfl (fun _ => id) rfl
        (.inl le_rfl)).settle l.file
    · cases hstep
  | duplicate i =>
    simp only [Process.step] at hstep
    split at hstep
    · rename_i l hl
      rw [Option.ite_none_right_eq_some, Option.some.injEq, Prod.mk.injEq] at hstep
      obtain ⟨-, rfl, rfl⟩ := hstep
      rcases hg with hg | hg
      · refine hg.set hl rfl rfl (fun k hk => ?_) rfl (.inl (Nat.le_succ _))
        by_cases hkl : k = l.file
        · subst hkl
          simpa using hk
        · simpa [hkl] using hk
      · cases hg
        refine ⟨h.file l (h.mem hl), .inr ⟨{ l with exporting := l.exporting + 1 }, ?_, rfl, Nat.succ_pos _⟩⟩
        exact List.mem_set (List.getElem?_eq_some_iff.1 hl).1 _
    · cases hstep
  | storeExported i =>
    simp only [Process.step] at hstep
    split at hstep
    · rename_i l hl
      rw [Option.ite_none_right_eq_some, Option.some.injEq, Prod.mk.injEq] at hstep
      obtain ⟨-, rfl, rfl⟩ := hstep
      refine (hg.resolve_right nofun).set hl rfl rfl (fun k hk => ?_) rfl (.inr (by simp))
      by_cases hkl : k = l.file
      · simp [hkl]
      · simpa [hkl] using hk
    · cases hstep

end Exports

/-! ## Runs -/

section Runs

variable {s t : Process} {es es₁ es₂ : List (Event × Outcome)} {e : Event × Outcome} {ownedHere : Bool}

/-- Take the steps of a list, if they are possible and end as the list says. -/
def replay (s : Process) : List (Event × Outcome) → Option Process
  | [] => some s
  | (e, o) :: es =>
    match s.step e with
    | some (t, o') => if o' = o then t.replay es else none
    | none => none

theorem run_of_replay : ∀ {es : List (Event × Outcome)} {s t : Process}, s.replay es = some t → Run Step s es t
  | [], s, t, h => by
    cases h
    exact .nil
  | (e, o) :: es, s, t, h => by
    rw [replay] at h
    split at h
    · rename_i u o' hstep
      rw [Option.ite_none_right_eq_some] at h
      obtain ⟨rfl, h⟩ := h
      exact (Run.single (show Step s (e, o') u from hstep)).append (run_of_replay h)
    · cases h

/-- How often a file has been unlocked. -/
def unlocks (es : List (Event × Outcome)) (g : ℕ) : ℕ := es.countP fun e => e.2 = .unlocked g

theorem unlocks_append (es fs : List (Event × Outcome)) (g : ℕ) : unlocks (es ++ fs) g = unlocks es g + unlocks fs g := by
  simp [unlocks, List.countP_append]

theorem inv_initial (ownedHere : Bool) : Inv (initial ownedHere) fun _ => 0 where
  counted := fun g => ⟨rfl, by simp [strong, opened, initial, maxRefcount], by simp [finals, initial], fun _ => rfl,
    fun h => absurd h (by simp [live, finals, initial]), by simp [initial]⟩
  file := by simp [initial]
  held := by simp [initial]
  exporting := by simp [initial]
  unlocking := by simp [initial]
  registered := by simp [initial]

theorem inv_of_run (h : Run Step (initial ownedHere) es s) : Inv s (unlocks es) := by
  refine h.invariant (fun es s => Inv s (unlocks es)) (inv_initial ownedHere) fun es t e u ht hstep => ?_
  have hs := (ht.step hstep).1
  have heq : (fun g => unlocks es g + if e.2 = .unlocked g then 1 else 0) = unlocks (es ++ [e]) := by
    ext g
    rw [unlocks_append]
    simp [unlocks, List.countP_singleton]
  rwa [heq] at hs

theorem transferring_of_run {g : ℕ} (h : Run Step (initial ownedHere) es s) (hdup : ∃ e ∈ es, e.2 = .duplicated g) :
    Transferring s g := by
  induction h with
  | nil => simp at hdup
  | snoc hrun hstep ih =>
    refine Transferring.step (inv_of_run hrun) hstep ?_
    obtain ⟨f, hf, hfo⟩ := hdup
    rcases List.mem_append.1 hf with hf | hf
    · exact .inl (ih ⟨f, hf, hfo⟩)
    · rw [List.mem_singleton.1 hf] at hfo
      exact .inr hfo

/-- Once a file is unlocked it has no owner. -/
theorem Inv.live_eq_zero {c : ℕ → ℕ} {g : ℕ} (h : Inv s c) (hc : 0 < c g) : s.live g = 0 := by
  rw [(h.counted g).unlocks] at hc
  split at hc
  · rename_i h0
    omega
  · exact absurd hc (lt_irrefl 0)

/-- **The lease of a journal is released once, by its last logical owner.** In every state that any
    interleaving of the process's threads reaches, the count of a file is the number of its owners, no count is
    kept for a file without one, and a file whose owners are all gone has been unlocked once if it was not
    exported and never otherwise. No step finds a count at zero; an owner that goes is the last exactly when no
    owner is left; and an unlock comes after the last owner's release, on a lock that is held, with no export
    before it and no owner, export or unlock of the file after it. -/
theorem lease_released_once (h : Run Step (initial ownedHere) es s) :
    (∀ g, (s.files g).logicalOwners = s.live g) ∧ (∀ g, s.registration = some g → 0 < s.live g) ∧
    (∀ g, unlocks es g =
      if s.live g + s.finals g = 0 ∧ g < s.fileCount ∧ (s.files g).lifetimeFileExported = false then 1 else 0) ∧
    ∀ es₁ e es₂, es = es₁ ++ e :: es₂ → ∃ t u, Run Step (initial ownedHere) es₁ t ∧ Step t e u ∧ ∀ g,
      e.2 ≠ .underflowed g ∧
      (∀ finalOwner, e.2 = .released g finalOwner → 0 < t.live g ∧ (finalOwner = true ↔ u.live g = 0)) ∧
      (e.2 = .unlocked g → t.live g = 0 ∧ 0 < t.finals g ∧ (t.files g).locked = true ∧
        (∀ f ∈ es₁, f.2 ≠ .duplicated g) ∧
        ∀ f ∈ es₂, f.2 ≠ .coheld g ∧ f.2 ≠ .duplicated g ∧ f.2 ≠ .unlocked g ∧ ∀ b, f.2 ≠ .released g b) := by
  have hinv := inv_of_run h
  refine ⟨fun g => (hinv.counted g).owners, hinv.registered, fun g => (hinv.counted g).unlocks, ?_⟩
  rintro es₁ e es₂ rfl
  obtain ⟨u, hrun', hrest⟩ := (show Run Step (initial ownedHere) ((es₁ ++ [e]) ++ es₂) s by simpa using h).split
  obtain ⟨t, hrun, hstep⟩ := hrun'.last
  have ht := inv_of_run hrun
  obtain ⟨-, htells⟩ := ht.step hstep
  refine ⟨t, u, hrun, hstep, fun g => ⟨htells.underflowed g, htells.released g, fun he => ?_⟩⟩
  obtain ⟨hlive, hfinals, hexp, hlocked⟩ := htells.unlocked g he
  refine ⟨hlive, hfinals, hlocked, fun f hf hdup => ?_, fun f hf => ?_⟩
  · obtain ⟨-, htrans | ⟨l, hl, rfl, hpos⟩⟩ := transferring_of_run hrun ⟨f, hf, hdup⟩
    · rw [hexp] at htrans
      cases htrans
    · have := live_pos hl (ht.held l hl (ht.exporting l hl hpos))
      omega
  · -- the state before a later step of the file
    obtain ⟨fs, gs, rfl⟩ := List.append_of_mem hf
    obtain ⟨v, hrun₂, hrest₂⟩ := (show Run Step u ((fs ++ [f]) ++ gs) s by simpa using hrest).split
    obtain ⟨w, hrun₃, hstep₃⟩ := hrun₂.last
    have hw := inv_of_run (hrun'.append hrun₃)
    have hunlocked : 0 < unlocks ((es₁ ++ [e]) ++ fs) g := by
      rw [unlocks_append, unlocks_append]
      have : unlocks [e] g = 1 := by simp [unlocks, he]
      omega
    have hzero := hw.live_eq_zero hunlocked
    obtain ⟨-, htells₃⟩ := hw.step hstep₃
    refine ⟨fun ho => ?_, fun ho => ?_, fun ho => ?_, fun b ho => ?_⟩
    · have := htells₃.coheld g ho
      omega
    · have := htells₃.duplicated g ho
      omega
    · have hpos := (htells₃.unlocked g ho).2.1
      rw [(hw.counted g).unlocks] at hunlocked
      split at hunlocked
      · omega
      · exact absurd hunlocked (lt_irrefl 0)
    · have := (htells₃.released g b ho).1
      omega

/-- A lease is created and co-held; the first owner goes, then the second, which unlocks. -/
theorem lease_released_once_coheld : ∃ s : Process,
    (∀ g, (s.files g).logicalOwners = s.live g) ∧ ∀ g, unlocks
      [(.acquire, .acquired 0), (.cohold true, .coheld 0), (.drop 0, .none), (.release 0, .released 0 false),
        (.drop 1, .none), (.release 1, .released 0 true), (.checkExported 1, .none), (.unlock 1 true, .unlocked 0)] g =
      if s.live g + s.finals g = 0 ∧ g < s.fileCount ∧ (s.files g).lifetimeFileExported = false then 1 else 0 := by
  obtain ⟨s, h⟩ : ∃ s, replay (initial true)
      [(.acquire, .acquired 0), (.cohold true, .coheld 0), (.drop 0, .none), (.release 0, .released 0 false),
        (.drop 1, .none), (.release 1, .released 0 true), (.checkExported 1, .none), (.unlock 1 true, .unlocked 0)] =
      some s := Option.isSome_iff_exists.1 (by decide)
  have hrun := run_of_replay h
  exact ⟨s, (lease_released_once hrun).1, (lease_released_once hrun).2.2.1⟩

end Runs

end Process

end Concurrency.Journal
