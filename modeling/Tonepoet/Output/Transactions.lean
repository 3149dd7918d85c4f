import Tonepoet.Library.Transition
import Tonepoet.Text

/-!
# Output transactions (sacd-rs output_transaction.rs:211-430)

Any number of transactions on one final path, in any processes, beside other creators of that path. One step is one
call into the file system. The temporary files stand in the directory of the final path; with its five further dots a
temporary name is never the final one, so the two are kept apart.
-/

namespace Output

open Transition Rust

/-- `OutputOverwritePolicy`. -/
inductive OutputOverwritePolicy where
  | refuseExisting
  | replaceExisting
  deriving DecidableEq

/-- What stands at the final path. -/
inductive Entry where
  | file (content : List UInt8)
  | directory
  | danglingLink
  deriving DecidableEq

def isFile : Option Entry → Bool
  | some (.file _) => true
  | _ => false

/-- `Path::exists`, which follows a link. -/
def pathExists : Option Entry → Bool
  | some (.file _) => true
  | some .directory => true
  | some .danglingLink => false
  | none => false

/-- The parts of the final file name that a temporary name repeats. -/
structure FinalName where
  stem : Str
  ext : Option Str

/-- `candidate_temp_path` (output_transaction.rs:408). -/
def FinalName.candidateTempPath (name : FinalName) (process counter nanos attempt : ℕ) : Str :=
  '.' :: name.stem ++ ".tonepoet-tmp.".toList ++ formatNat process ++ '.' :: formatNat counter ++ '.' :: formatNat nanos ++
    '.' :: formatNat attempt ++ match name.ext with
      | some ext => '.' :: ext
      | none => []

def tempCreateAttempts : ℕ := 128

/-- How a transaction ended: published, given up, or with an `OutputTransactionError`. -/
inductive Ending where
  | committed
  | aborted
  | dropped
  | existingOutputRefused
  | createTemp
  | tempNameExhausted
  | flushTemp
  | syncTemp
  | commit
  | cleanupTemp
  deriving DecidableEq

/-- Where a transaction stands. From `writing` to `synced` its file is open; in `dropping` the `Drop` still has to run. -/
inductive Phase where
  | creating (attempt : ℕ)
  | writing (temp : Str)
  | flushed (temp : Str)
  | synced (temp : Str)
  | renameFailed (temp : Str)
  | aborting (temp : Str)
  | dropping (temp : Str) (ending : Ending)
  | done (temp : Option Str) (ending : Ending)
  deriving DecidableEq

structure OutputTransaction where
  process : ℕ
  overwrite : OutputOverwritePolicy
  phase : Phase
  deriving DecidableEq

/-- The directory of the final path, and `TEMP_COUNTER` of each process. -/
structure Directory where
  finalEntry : Option Entry
  temps : Str → Option (List UInt8)
  counters : ℕ → ℕ

/-- The steps of one transaction; `ok` and `fault` say what the file system answers. -/
inductive Action where
  | openTemp (nanos : ℕ) (fault : Bool)
  | write (content : List UInt8)
  | flush (ok : Bool)
  | sync (ok : Bool)
  | rename (ok : Bool)
  | abort
  | drop
  | cleanup (ok : Bool)
  deriving DecidableEq

/-- What a step did that others can see. -/
inductive Outcome where
  | quiet
  | admitted (id : ℕ)
  | published (overwrite : OutputOverwritePolicy) (content : List UInt8) (replaced : Option Entry)
  | removed
  deriving DecidableEq

/-- `rename_for_policy` (output_transaction.rs:367) on POSIX: either policy calls `rename`, which replaces anything but a directory. -/
def renameForPolicy (dir : Directory) (temp : Str) (ok : Bool) (_overwrite : OutputOverwritePolicy) : Option (List UInt8 × Directory) :=
  match ok, dir.temps temp, dir.finalEntry with
  | true, some content, some (.file _) | true, some content, some .danglingLink | true, some content, none =>
    some (content, { dir with finalEntry := some (.file content), temps := Function.update dir.temps temp none })
  | _, _, _ => none

/-- `cleanup_temp` (output_transaction.rs:400): a name that is gone already is fine. -/
def cleanupTemp (dir : Directory) (temp : Str) : Directory := { dir with temps := Function.update dir.temps temp none }

/-- One step of a transaction. -/
def OutputTransaction.act (name : FinalName) (dir : Directory) (tx : OutputTransaction) (action : Action) :
    Option (Directory × OutputTransaction × Outcome) :=
  match tx.phase, action with
  | .creating attempt, .openTemp nanos fault =>
    -- the counter moves on with every attempt
    let temp := name.candidateTempPath tx.process (dir.counters tx.process) nanos attempt
    let dir := { dir with counters := Function.update dir.counters tx.process (dir.counters tx.process + 1) }
    if fault then some (dir, { tx with phase := .done none .createTemp }, .quiet)
    else match dir.temps temp with
    | none => some ({ dir with temps := Function.update dir.temps temp (some []) }, { tx with phase := .writing temp }, .quiet)
    | some _ =>
      if attempt + 1 < tempCreateAttempts then some (dir, { tx with phase := .creating (attempt + 1) }, .quiet)
      else some (dir, { tx with phase := .done none .tempNameExhausted }, .quiet)
  | .writing temp, .write content => some ({ dir with temps := Function.update dir.temps temp (some content) }, tx, .quiet)
  | .writing temp, .flush ok => some (dir, { tx with phase := if ok then .flushed temp else .dropping temp .flushTemp }, .quiet)
  | .flushed temp, .sync ok => some (dir, { tx with phase := if ok then .synced temp else .dropping temp .syncTemp }, .quiet)
  | .synced temp, .rename ok =>
    match renameForPolicy dir temp ok tx.overwrite with
    | some (content, dir') => some (dir', { tx with phase := .done (some temp) .committed }, .published tx.overwrite content dir.finalEntry)
    | none => some (dir, { tx with phase := .renameFailed temp }, .quiet)
  | .writing temp, .abort => some (dir, { tx with phase := .aborting temp }, .quiet)
  | .writing temp, .drop => some (dir, { tx with phase := .dropping temp .dropped }, .quiet)
  | .renameFailed temp, .cleanup ok =>
    -- a failure is only reported, and the `Drop` cleans up again
    if ok then some (cleanupTemp dir temp, { tx with phase := .dropping temp .commit }, .removed)
    else some (dir, { tx with phase := .dropping temp .commit }, .quiet)
  | .aborting temp, .cleanup ok =>
    if ok then some (cleanupTemp dir temp, { tx with phase := .done (some temp) .aborted }, .removed)
    else some (dir, { tx with phase := .dropping temp .cleanupTemp }, .quiet)
  | .dropping temp ending, .cleanup ok =>
    if ok then some (cleanupTemp dir temp, { tx with phase := .done (some temp) ending }, .removed)
    else some (dir, { tx with phase := .done (some temp) ending }, .quiet)
  | _, _ => none

/-- The directory and every transaction there has been. -/
structure World where
  dir : Directory
  transactions : List OutputTransaction

inductive Event where
  | create (process : ℕ) (overwrite : OutputOverwritePolicy)
  | act (id : ℕ) (action : Action)
  | put (entry : Entry)
  deriving DecidableEq

/-- `create` up to its existence check (output_transaction.rs:217-227), a step of a transaction, or another creator. -/
def World.step (name : FinalName) (s : World) : Event → Option (World × Outcome)
  | .create process overwrite =>
    if pathExists s.dir.finalEntry && overwrite = .refuseExisting then
      some ({ s with transactions := s.transactions ++ [⟨process, overwrite, .done none .existingOutputRefused⟩] }, .quiet)
    else some ({ s with transactions := s.transactions ++ [⟨process, overwrite, .creating 0⟩] }, .admitted s.transactions.length)
  | .act id action => do
    let tx ← s.transactions[id]?
    let (dir, tx, outcome) ← tx.act name s.dir action
    return (⟨dir, s.transactions.set id tx⟩, outcome)
  | .put entry => if s.dir.finalEntry = none then some ({ s with dir := { s.dir with finalEntry := some entry } }, .quiet) else none

/-- The steps, labelled with the event and what came of it. -/
def Step (name : FinalName) (s : World) (e : Event × Outcome) (t : World) : Prop := s.step name e.1 = some (t, e.2)

/-! ## Temporary names -/

theorem dot_not_mem_formatNat (n : ℕ) : '.' ∉ formatNat n := fun h => absurd (isDigit_of_mem_formatNat h) (by decide)

theorem formatNat_injective : Function.Injective formatNat := by
  intro m n h
  rw [← Nat.ofDigitChars_ten_toDigits (n := m), ← Nat.ofDigitChars_ten_toDigits (n := n)]
  exact congrArg _ h

/-- A number up to the next dot can be read off. -/
theorem formatNat_dot_cancel {m n : ℕ} {s t : Str} (h : formatNat m ++ '.' :: s = formatNat n ++ '.' :: t) : m = n ∧ s = t := by
  have hread : ∀ (k : ℕ) (rest : Str), (formatNat k ++ '.' :: rest).takeWhile (· ≠ '.') = formatNat k := by
    intro k rest
    rw [List.takeWhile_append_of_pos, List.takeWhile_cons_of_neg (by simp), List.append_nil]
    intro c hc
    rw [decide_eq_true_iff]
    rintro rfl
    exact dot_not_mem_formatNat k hc
  have hdigits : formatNat m = formatNat n := by rw [← hread m s, ← hread n t, h]
  refine ⟨formatNat_injective hdigits, ?_⟩
  rw [hdigits] at h
  exact (List.cons.inj (List.append_cancel_left h)).2

/-- Two names of one process under one count are one attempt's. -/
theorem candidateTempPath_inj {name : FinalName} {p c nanos attempt p' c' nanos' attempt' : ℕ}
    (h : name.candidateTempPath p c nanos attempt = name.candidateTempPath p' c' nanos' attempt') : p = p' ∧ c = c' := by
  simp only [FinalName.candidateTempPath, List.cons_append, List.append_assoc, List.cons.injEq, true_and, List.append_cancel_left_eq] at h
  obtain ⟨hp, h⟩ := formatNat_dot_cancel h
  exact ⟨hp, (formatNat_dot_cancel h).1⟩

end Output
