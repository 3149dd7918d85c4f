import Mathlib.Logic.Function.Basic
import Tonepoet.Library.Transition

/-!
# The lock of the staging cleanup (pipeline/memory_budget.rs:848-900, 1225-1252)

A cleanup pass opens the lock file by name, creating it if it is not there, and tries to lock the inode it has opened. At
its end it unlocks the inode and then removes the name. In between another pass may open and lock the inode whose name is
about to go, and the pass after that finds no name, creates a new inode and locks that: two passes then sweep one parent.
It takes the removal of a name whose inode another pass has open, and no more.
-/

namespace Staging

open Transition

/-- Where a process is in its cleanup pass. -/
inductive Phase where
  | idle
  /-- The lock file is open. -/
  | opened (inode : ℕ)
  /-- It holds a `ScratchCleanupLock` and sweeps. -/
  | holding (inode : ℕ)
  /-- `drop` has unlocked and not removed the name yet. -/
  | unlocked (inode : ℕ)
  deriving DecidableEq, Repr

/-- The inode a process has open for locking or has locked. -/
def Phase.uses : Phase → Option ℕ
  | opened inode | holding inode => some inode
  | idle | unlocked _ => none

/-- One staging parent: the inode under the lock file's name, the owners of the file locks, and the processes. -/
structure Parent where
  entry : Option ℕ
  nextInode : ℕ
  lockedBy : ℕ → Option ℕ
  phase : ℕ → Phase

inductive Event where
  | openFile (process : ℕ)
  | tryLock (process : ℕ)
  | unlock (process : ℕ)
  | removeFile (process : ℕ)
  deriving DecidableEq, Repr

namespace Parent

def initial : Parent := ⟨none, 0, fun _ => none, fun _ => .idle⟩

def setPhase (s : Parent) (process : ℕ) (phase : Phase) : Parent := { s with phase := Function.update s.phase process phase }

/-- The calls of `try_acquire_cleanup_lock` and of `ScratchCleanupLock::drop`, one by one. -/
def step (s : Parent) : Event → Option Parent
  | .openFile process =>
    if s.phase process ≠ .idle then none
    else
      match s.entry with
      | some inode => some (s.setPhase process (.opened inode))
      | none => some ({ s with entry := some s.nextInode, nextInode := s.nextInode + 1 }.setPhase process (.opened s.nextInode))
  | .tryLock process =>
    match s.phase process with
    | .opened inode =>
      match s.lockedBy inode with
      | none => some ({ s with lockedBy := Function.update s.lockedBy inode (some process) }.setPhase process (.holding inode))
      -- contention: the file is closed again
      | some _ => some (s.setPhase process .idle)
    | _ => none
  | .unlock process =>
    match s.phase process with
    | .holding inode => some ({ s with lockedBy := Function.update s.lockedBy inode none }.setPhase process (.unlocked inode))
    | _ => none
  | .removeFile process =>
    match s.phase process with
    | .unlocked _ => some ({ s with entry := none }.setPhase process .idle)
    | _ => none

def Step (s : Parent) (e : Event) (t : Parent) : Prop := s.step e = some t

def Holds (s : Parent) (process : ℕ) : Prop := ∃ inode, s.phase process = .holding inode

/-- No two processes hold the lock. -/
def Exclusive (s : Parent) : Prop := ∀ p q, s.Holds p → s.Holds q → p = q

/-- The step does not remove the name of an inode that a process has open or locked. -/
def Clean (s : Parent) : Event → Prop
  | .removeFile _ => ∀ process inode, s.entry = some inode → (s.phase process).uses ≠ some inode
  | _ => True

def CleanStep (s : Parent) (e : Event) (t : Parent) : Prop := Step s e t ∧ Clean s e

@[simp] theorem setPhase_entry (s : Parent) (p : ℕ) (phase : Phase) : (s.setPhase p phase).entry = s.entry := rfl

@[simp] theorem setPhase_nextInode (s : Parent) (p : ℕ) (phase : Phase) : (s.setPhase p phase).nextInode = s.nextInode := rfl

@[simp] theorem setPhase_lockedBy (s : Parent) (p : ℕ) (phase : Phase) : (s.setPhase p phase).lockedBy = s.lockedBy := rfl

@[simp] theorem setPhase_self (s : Parent) (p : ℕ) (phase : Phase) : (s.setPhase p phase).phase p = phase := Function.update_self ..

theorem setPhase_other (s : Parent) {p q : ℕ} (h : q ≠ p) (phase : Phase) : (s.setPhase p phase).phase q = s.phase q :=
  Function.update_of_ne h ..

/-! ## What a step does -/

/-- The steps by what they change. -/
inductive Acts (s : Parent) : Event → Parent → Prop where
  | openExisting {p inode : ℕ} (hphase : s.phase p = .idle) (hentry : s.entry = some inode) :
      Acts s (.openFile p) (s.setPhase p (.opened inode))
  | create {p : ℕ} (hphase : s.phase p = .idle) (hentry : s.entry = none) :
      Acts s (.openFile p) ({ s with entry := some s.nextInode, nextInode := s.nextInode + 1 }.setPhase p (.opened s.nextInode))
  | lock {p inode : ℕ} (hphase : s.phase p = .opened inode) (hfree : s.lockedBy inode = none) :
      Acts s (.tryLock p) ({ s with lockedBy := Function.update s.lockedBy inode (some p) }.setPhase p (.holding inode))
  | contend {p inode : ℕ} (hphase : s.phase p = .opened inode) (hheld : s.lockedBy inode ≠ none) :
      Acts s (.tryLock p) (s.setPhase p .idle)
  | unlock {p inode : ℕ} (hphase : s.phase p = .holding inode) :
      Acts s (.unlock p) ({ s with lockedBy := Function.update s.lockedBy inode none }.setPhase p (.unlocked inode))
  | remove {p inode : ℕ} (hphase : s.phase p = .unlocked inode) :
      Acts s (.removeFile p) ({ s with entry := none }.setPhase p .idle)

variable {s t : Parent} {e : Event}

theorem acts_iff : Step s e t ↔ Acts s e t := by
  constructor
  · intro h
    unfold Step at h
    cases e with
    | openFile p =>
      simp only [step] at h
      by_cases hphase : s.phase p = .idle
      · rw [if_neg (not_not.2 hphase)] at h
        cases hentry : s.entry with
        | some inode =>
          rw [hentry] at h
          cases h
          exact .openExisting hphase hentry
        | none =>
          rw [hentry] at h
          cases h
          exact .create hphase hentry
      · rw [if_pos hphase] at h
        cases h
    | tryLock p =>
      simp only [step] at h
      split at h
      case h_1 inode hphase =>
        split at h
        case h_1 hfree =>
          cases h
          exact .lock hphase hfree
        case h_2 owner hheld =>
          cases h
          exact .contend hphase (by rw [hheld]; exact Option.some_ne_none owner)
      case h_2 => cases h
    | unlock p =>
      simp only [step] at h
      split at h
      case h_1 inode hphase =>
        cases h
        exact .unlock hphase
      case h_2 => cases h
    | removeFile p =>
      simp only [step] at h
      split at h
      case h_1 inode hphase =>
        cases h
        exact .remove hphase
      case h_2 => cases h
  · intro h
    unfold Step
    cases h with
    | openExisting hphase hentry => simp [step, hphase, hentry]
    | create hphase hentry => simp [step, hphase, hentry]
    | lock hphase hfree => simp [step, hphase, hfree]
    | @contend p inode hphase hheld =>
      obtain ⟨owner, howner⟩ := Option.ne_none_iff_exists'.1 hheld
      simp [step, hphase, howner]
    | unlock hphase => simp [step, hphase]
    | remove hphase => simp [step, hphase]

/-! ## The owners of the locks -/

/-- A lock belongs to the process that holds it, and inodes are new when they are created. -/
structure Owned (s : Parent) : Prop where
  owner : ∀ inode process, s.lockedBy inode = some process ↔ s.phase process = .holding inode
  used : ∀ process inode, (s.phase process).uses = some inode → inode < s.nextInode
  named : ∀ inode, s.entry = some inode → inode < s.nextInode

theorem owned_initial : Owned initial := by
  constructor <;> simp [initial, Phase.uses]

theorem Owned.locked_lt (h : Owned s) {inode process : ℕ} (hlock : s.lockedBy inode = some process) : inode < s.nextInode :=
  h.used process inode (by rw [(h.owner inode process).1 hlock]; rfl)

/-- A process that changes its phase without a lock. -/
theorem Owned.setPhase (h : Owned s) {p : ℕ} (hbefore : ∀ inode, s.phase p ≠ .holding inode) {phase : Phase}
    (hafter : ∀ inode, phase ≠ .holding inode) (hused : ∀ inode, phase.uses = some inode → inode < s.nextInode) :
    Owned (s.setPhase p phase) := by
  refine ⟨fun inode q => ?_, fun q inode hq => ?_, h.named⟩
  · rw [setPhase_lockedBy, h.owner]
    by_cases hqp : q = p
    · subst hqp
      rw [setPhase_self]
      exact ⟨fun hq => absurd hq (hbefore inode), fun hq => absurd hq (hafter inode)⟩
    · rw [setPhase_other s hqp]
  · by_cases hqp : q = p
    · subst hqp
      rw [setPhase_self] at hq
      exact hused inode hq
    · rw [setPhase_other s hqp] at hq
      exact h.used q inode hq

theorem Owned.step (h : Owned s) (he : Step s e t) : Owned t := by
  cases acts_iff.1 he with
  | openExisting hphase hentry =>
    refine h.setPhase (by simp [hphase]) (by simp) fun inode hinode => ?_
    cases hinode
    exact h.named _ hentry
  | create hphase hentry =>
    have hgrown : Owned { s with entry := some s.nextInode, nextInode := s.nextInode + 1 } :=
      ⟨h.owner, fun q inode hq => Nat.lt_succ_of_lt (h.used q inode hq),
        fun inode hinode => by cases hinode; exact Nat.lt_succ_self _⟩
    refine hgrown.setPhase (by simp [hphase]) (by simp) fun inode hinode => ?_
    cases hinode
    exact Nat.lt_succ_self _
  | @lock p inode hphase hfree =>
    refine ⟨fun i q => ?_, fun q i hq => ?_, h.named⟩
    · rw [setPhase_lockedBy]
      by_cases hqp : q = p
      · subst hqp
        rw [setPhase_self]
        by_cases hi : i = inode
        · subst hi
          simp
        · have hne : s.phase q ≠ .holding i := by simp [hphase]
          simp only [Function.update_of_ne hi, h.owner, hne, false_iff, Phase.holding.injEq]
          exact fun heq => hi heq.symm
      · rw [setPhase_other _ hqp]
        by_cases hi : i = inode
        · subst hi
          have hnone : s.phase q ≠ .holding i := fun hq => by
            rw [← h.owner, hfree] at hq
            cases hq
          simp only [Function.update_self, Option.some.injEq, hnone, iff_false]
          exact fun heq => hqp heq.symm
        · simp only [Function.update_of_ne hi]
          exact h.owner i q
    · by_cases hqp : q = p
      · subst hqp
        rw [setPhase_self] at hq
        cases hq
        exact h.used q _ (by rw [hphase]; rfl)
      · rw [setPhase_other _ hqp] at hq
        exact h.used q i hq
  | contend hphase hheld => exact h.setPhase (by simp [hphase]) (by simp) (by simp [Phase.uses])
  | @unlock p inode hphase =>
    refine ⟨fun i q => ?_, fun q i hq => ?_, h.named⟩
    · rw [setPhase_lockedBy]
      by_cases hqp : q = p
      · subst hqp
        rw [setPhase_self]
        by_cases hi : i = inode
        · subst hi
          simp
        · have hne : s.phase q ≠ .holding i := by
            rw [hphase]
            simpa using fun heq => hi heq.symm
          simp [Function.update_of_ne hi, h.owner, hne]
      · rw [setPhase_other _ hqp]
        by_cases hi : i = inode
        · subst hi
          have hnone : s.phase q ≠ .holding i := fun hq => by
            have howner := (h.owner i p).2 hphase
            rw [← h.owner, howner] at hq
            exact hqp (Option.some.inj hq).symm
          simp [hnone]
        · simp only [Function.update_of_ne hi]
          exact h.owner i q
    · by_cases hqp : q = p
      · subst hqp
        rw [setPhase_self] at hq
        cases hq
      · rw [setPhase_other _ hqp] at hq
        exact h.used q i hq
  | remove hphase =>
    have hremoved : Owned { s with entry := none } := ⟨h.owner, h.used, nofun⟩
    exact hremoved.setPhase (by simp [hphase]) (by simp) (by simp [Phase.uses])

theorem owned_of_run {es : List Event} (h : Run Step initial es s) : Owned s :=
  h.invariant (fun _ s => Owned s) owned_initial fun _ _ _ _ hs he => hs.step he

/-! ## Runs with clean removals -/

/-- Every inode in use is the named one. -/
def Named (s : Parent) : Prop := ∀ process inode, (s.phase process).uses = some inode → s.entry = some inode

theorem Named.setPhase (h : Named s) (p : ℕ) {phase : Phase} (hphase : ∀ inode, phase.uses = some inode → s.entry = some inode) :
    Named (s.setPhase p phase) := by
  intro q inode hq
  by_cases hqp : q = p
  · subst hqp
    rw [setPhase_self] at hq
    exact hphase inode hq
  · rw [setPhase_other s hqp] at hq
    exact h q inode hq

theorem Named.step (h : Named s) (he : CleanStep s e t) : Named t := by
  obtain ⟨he, hclean⟩ := he
  cases acts_iff.1 he with
  | openExisting hphase hentry => exact h.setPhase _ fun inode hinode => by cases hinode; exact hentry
  | create hphase hentry =>
    -- nobody uses an inode while there is no name
    have hgrown : Named { s with entry := some s.nextInode, nextInode := s.nextInode + 1 } := fun q inode hq => by
      have hnamed := h q inode hq
      rw [hentry] at hnamed
      cases hnamed
    exact hgrown.setPhase _ fun inode hinode => by cases hinode; rfl
  | @lock p inode hphase hfree =>
    have hsame : Named { s with lockedBy := Function.update s.lockedBy inode (some p) } := h
    exact hsame.setPhase _ fun i hi => by cases hi; exact h p _ (by rw [hphase]; rfl)
  | contend hphase hheld => exact h.setPhase _ nofun
  | @unlock p inode hphase =>
    have hsame : Named { s with lockedBy := Function.update s.lockedBy inode none } := h
    exact hsame.setPhase _ nofun
  | remove hphase =>
    have hremoved : Named { s with entry := none } := fun q inode hq => absurd hq (hclean q inode (h q inode hq))
    exact hremoved.setPhase _ nofun

theorem Named.exclusive (h : Named s) (ho : Owned s) : Exclusive s := by
  rintro p q ⟨i, hp⟩ ⟨j, hq⟩
  have hi := h p i (by rw [hp]; rfl)
  have hj := h q j (by rw [hq]; rfl)
  obtain rfl : i = j := Option.some.inj (hi.symm.trans hj)
  have hlock := (ho.owner i p).2 hp
  rw [(ho.owner i q).2 hq] at hlock
  exact (Option.some.inj hlock).symm

theorem named_of_run {es : List Event} (h : Run CleanStep initial es s) : Named s :=
  h.invariant (fun _ s => Named s) (by simp [Named, initial, Phase.uses]) fun _ _ _ _ hs he => hs.step he

/-! ## After an unclean removal -/

/-- A process without a name to find locks an inode of its own. -/
theorem lock_new (ho : Owned s) (hentry : s.entry = none) {p : ℕ} (hp : s.phase p = .idle) {q i : ℕ} (hq : s.phase q = .holding i) :
    ∃ fs u, Run Step s fs u ∧ ¬ Exclusive u := by
  have hpq : q ≠ p := fun heq => by
    rw [heq, hp] at hq
    cases hq
  have hcreate := acts_iff.2 (Acts.create hp hentry)
  set s₁ := { s with entry := some s.nextInode, nextInode := s.nextInode + 1 }.setPhase p (.opened s.nextInode) with hs₁
  have hfree : s₁.lockedBy s.nextInode = none := by
    rw [hs₁, setPhase_lockedBy]
    cases hlock : s.lockedBy s.nextInode with
    | none => rfl
    | some r => exact absurd (ho.locked_lt hlock) (Nat.lt_irrefl _)
  have hlock := acts_iff.2 (Acts.lock (s := s₁) (p := p) (setPhase_self ..) hfree)
  refine ⟨_, _, (Run.single hcreate).snoc hlock, fun hexcl => hpq (hexcl q p ⟨i, ?_⟩ ⟨_, setPhase_self ..⟩)⟩
  rw [setPhase_other _ hpq]
  exact (setPhase_other _ hpq _).trans hq

/-- **An unclean removal can be followed by two holders.** -/
theorem unclean_breaks (ho : Owned s) (he : Step s e t) (hclean : ¬ Clean s e) : ∃ fs u, Run Step t fs u ∧ ¬ Exclusive u := by
  have ho' := ho.step he
  cases e with
  | openFile p => exact absurd trivial hclean
  | tryLock p => exact absurd trivial hclean
  | unlock p => exact absurd trivial hclean
  | removeFile p =>
    simp only [Clean, not_forall, not_not] at hclean
    obtain ⟨q, i, hentry, huses⟩ := hclean
    cases acts_iff.1 he with
    | remove hphase =>
      have hqp : q ≠ p := fun heq => by
        rw [heq, hphase] at huses
        cases huses
      have hidle : ({ s with entry := none }.setPhase p .idle).phase p = .idle := setPhase_self ..
      -- whoever has the inode locked, or locks it now
      cases hlock : s.lockedBy i with
      | some r =>
        have hr := (ho.owner i r).1 hlock
        have hrp : r ≠ p := fun heq => by
          rw [heq, hphase] at hr
          cases hr
        exact lock_new ho' rfl hidle (q := r) (i := i) ((setPhase_other _ hrp _).trans hr)
      | none =>
        have hq : s.phase q = .opened i := by
          cases hcase : s.phase q with
          | idle => rw [hcase] at huses; cases huses
          | unlocked j => rw [hcase] at huses; cases huses
          | opened j => rw [hcase] at huses; cases huses; rfl
          | holding j =>
            rw [hcase] at huses
            cases huses
            rw [← ho.owner, hlock] at hcase
            cases hcase
        have hopened : ({ s with entry := none }.setPhase p .idle).phase q = .opened i := (setPhase_other _ hqp _).trans hq
        have hstep := acts_iff.2 (Acts.lock hopened hlock)
        obtain ⟨fs, u, hrun, hu⟩ := lock_new (ho'.step hstep) rfl (p := p) ((setPhase_other _ (Ne.symm hqp) _).trans hidle)
          (q := q) (i := i) (setPhase_self ..)
        exact ⟨_, u, (Run.single hstep).append hrun, hu⟩

/-- **When cleanup passes exclude each other.** In every run whose removals are clean no two processes ever hold the lock;
    and after a removal that is not, two of them can. -/
theorem cleanupLock_exclusive (es : List Event) (s : Parent) :
    (Run CleanStep initial es s → Exclusive s) ∧
      ∀ e t, Run Step initial es s → Step s e t → ¬ Clean s e → ∃ fs u, Run Step t fs u ∧ ¬ Exclusive u :=
  ⟨fun h => (named_of_run h).exclusive (owned_of_run (h.mono fun _ _ _ he => he.1)),
    fun _ _ h he hclean => unclean_breaks (owned_of_run h) he hclean⟩

/-- The state after a list of steps. -/
def play (s : Parent) : List Event → Option Parent
  | [] => some s
  | e :: es => (s.step e).bind fun t => t.play es

theorem run_of_play {es : List Event} : ∀ {s t : Parent}, s.play es = some t → Run Step s es t := by
  induction es with
  | nil =>
    intro s t h
    cases h
    exact .nil
  | cons e es ih =>
    intro s t h
    obtain ⟨u, hu, h⟩ := Option.bind_eq_some_iff.1 h
    exact (Run.single hu).append (ih h)

/-- Two passes: the second opens the file the first has locked, locks it when the first unlocks, and the first, having removed
    the name, starts again. -/
def overlapping : List Event :=
  [.openFile 0, .tryLock 0, .openFile 1, .unlock 0, .tryLock 1, .removeFile 0, .openFile 0, .tryLock 0]

theorem cleanupLock_not_exclusive : ∃ s, Run Step initial overlapping s ∧ s.phase 0 = .holding 1 ∧ s.phase 1 = .holding 0 ∧
    ¬ Exclusive s := by
  obtain ⟨s, hs⟩ : ∃ s, initial.play overlapping = some s := ⟨_, rfl⟩
  have hview : (initial.play overlapping).map (fun s => (s.phase 0, s.phase 1)) = some (.holding 1, .holding 0) := by decide
  rw [hs, Option.map_some, Option.some.injEq, Prod.mk.injEq] at hview
  obtain ⟨h0, h1⟩ := hview
  exact ⟨s, run_of_play hs, h0, h1, fun h => absurd (h 0 1 ⟨_, h0⟩ ⟨_, h1⟩) (by decide)⟩

end Parent
end Staging
