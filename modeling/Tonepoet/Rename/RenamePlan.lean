import Mathlib.Data.List.Lex
import Mathlib.Data.Prod.Lex
import Tonepoet.Concurrency.PathClaims
import Tonepoet.Library.PathTree

/-!
# Rename plans (rename_plan.rs:11-243)

A path is the list of its components. The lossy spelling of a path, which is all that its `display` shows, and the lower-casing that gives its
key are parameters: nothing depends on what they are. The file system is what stands at each path, without symbolic links.
-/

namespace Rename

open Concurrency (Component Path startsWith)

/-- What stands at a path. -/
inductive Node where
  | directory
  | file (content : List UInt8)
  | special
  deriving DecidableEq, Repr

/-- A file system: what stands in a directory stands in one that exists. -/
structure DirectoryTree where
  node : Path → Option Node
  parent : ∀ path component, node (path ++ [component]) ≠ none → node path = some .directory

structure RenameIntent where
  source : Path
  destination : Path
  deriving DecidableEq, Repr

structure RenameTransactionEntry where
  source : Path
  destination : Path
  sourceDepth : ℕ
  destinationDepth : ℕ
  deriving DecidableEq, Repr

structure RenameTransactionPlan where
  entries : List RenameTransactionEntry
  noOps : List RenameIntent
  deriving DecidableEq, Repr

/-- `path_depth` (rename_plan.rs:195). -/
def pathDepth (path : Path) : ℕ := path.length

/-! ## Orders -/

/-- The order of components. -/
def componentKey : Component → ℕ ×ₗ List ℕ
  | .rootDir => toLex (1, [])
  | .curDir => toLex (2, [])
  | .parentDir => toLex (3, [])
  | .normal name => toLex (4, name.map UInt8.toNat)

/-- The order of paths, component by component. -/
def pathKey (path : Path) : List (ℕ ×ₗ List ℕ) := path.map componentKey

namespace RenameTransactionPlan

def sourceKey (self : RenameTransactionPlan) (index : ℕ) : ℕ ×ₗ List (ℕ ×ₗ List ℕ) :=
  match self.entries[index]? with
  | some entry => toLex (entry.sourceDepth, pathKey entry.source)
  | none => toLex (0, [])

def destinationKey (self : RenameTransactionPlan) (index : ℕ) : ℕ ×ₗ List (ℕ ×ₗ List ℕ) :=
  match self.entries[index]? with
  | some entry => toLex (entry.destinationDepth, pathKey entry.destination)
  | none => toLex (0, [])

/-- `staging_order` (rename_plan.rs:37). -/
def stagingOrder (self : RenameTransactionPlan) : List ℕ :=
  (List.range self.entries.length).mergeSort fun left right => self.sourceKey left ≤ self.sourceKey right

/-- `installation_order` (rename_plan.rs:50). -/
def installationOrder (self : RenameTransactionPlan) : List ℕ :=
  (List.range self.entries.length).mergeSort fun left right => self.destinationKey left ≤ self.destinationKey right

end RenameTransactionPlan

/-! ## Planning -/

section
variable {κ : Type} [DecidableEq κ] (display : Path → String) (casefoldPath : Path → κ)

/-- `Path::parent`. -/
def pathParent (path : Path) : Option Path :=
  match path.getLast? with
  | none | some .rootDir => none
  | some _ => some path.dropLast

/-- `lexical_absolute` (rename_plan.rs:199). -/
def lexicalAbsolute (path : Path) : Except String Path :=
  let shown := display path
  if path.head? ≠ some .rootDir then .error s!"rename path is not absolute: {shown}"
  else path.foldlM (fun out component =>
    match component with
    | .rootDir => .ok [.rootDir]
    | .curDir => .ok out
    | .parentDir =>
      match pathParent out with
      | some parent => .ok parent
      | none => .error s!"rename path escapes root: {shown}"
    | .normal part => .ok (out ++ [.normal part])) []

/-- `reject_unstable_path` (rename_plan.rs:220). -/
def rejectUnstablePath (path : Path) : Except String Unit :=
  let shown := display path
  if path.isEmpty || (pathParent path).isNone then .error s!"unsafe rename path: {shown}"
  else if path.any (fun component => component = .curDir || component = .parentDir) then .error s!"unstable rename path: {shown}"
  else .ok ()

/-- An intent's paths (rename_plan.rs:74-97). -/
def normalizeIntent (baseDir : Path) (intent : RenameIntent) : Except String RenameIntent := do
  let source ← lexicalAbsolute display intent.source
  let destination ← lexicalAbsolute display intent.destination
  rejectUnstablePath display source
  rejectUnstablePath display destination
  let base := display baseDir
  let shownSource := display source
  let shownDestination := display destination
  if !startsWith source baseDir || !startsWith destination baseDir then
    .error s!"rename escapes transaction root {base}: {shownSource} -> {shownDestination}"
  else if source = baseDir ∨ destination = baseDir then .error "rename may not replace the transaction root"
  else if destination ≠ source ∧ startsWith destination source then
    .error s!"rename destination may not be nested inside its own source: {shownSource} -> {shownDestination}"
  else return { source, destination }

/-- The keys of sources (rename_plan.rs:99-110), and those of destinations (112-123). -/
def checkKeys (path : RenameIntent → Path) (error : RenameIntent → ℕ → ℕ → String) (seen : List κ) : List RenameIntent → Except String Unit
  | [] => .ok ()
  | intent :: intents =>
    let key := casefoldPath (path intent)
    match seen.findIdx? (· = key) with
    | some previous => .error (error intent (previous + 1) (seen.length + 1))
    | none => checkKeys path error (seen ++ [key]) intents

/-- The entries and the intents that change nothing (rename_plan.rs:134-157). -/
def planEntries (fs : DirectoryTree) (sourcePathKeys : List κ) (plan : RenameTransactionPlan) :
    List RenameIntent → Except String RenameTransactionPlan
  | [] => .ok plan
  | intent :: intents =>
    let shownSource := display intent.source
    let shownDestination := display intent.destination
    if intent.source = intent.destination then planEntries fs sourcePathKeys { plan with noOps := plan.noOps ++ [intent] } intents
    else if (fs.node intent.source).isNone then .error s!"rename source is missing: {shownSource}"
    else if (fs.node intent.destination).isSome ∧ casefoldPath intent.destination ∉ sourcePathKeys then
      .error s!"rename destination already exists and is not vacated by this plan: {shownDestination}"
    else
      planEntries fs sourcePathKeys { plan with
        entries := plan.entries ++ [⟨intent.source, intent.destination, pathDepth intent.source, pathDepth intent.destination⟩] } intents

def isFile (fs : DirectoryTree) (path : Path) : Bool :=
  match fs.node path with
  | some (.file _) => true
  | _ => false

/-- The destinations beneath a file's (rename_plan.rs:163-179). -/
def checkNesting (fs : DirectoryTree) (entries : List RenameTransactionEntry) : Except String Unit :=
  entries.zipIdx.forM fun (left, leftIndex) => entries.zipIdx.forM fun (right, rightIndex) =>
    let shownRight := display right.destination
    let shownLeft := display left.destination
    if leftIndex ≠ rightIndex ∧ startsWith right.destination left.destination ∧ right.destination ≠ left.destination ∧ isFile fs left.source then
      .error s!"rename destination {shownRight} would be nested under file destination {shownLeft}"
    else .ok ()

def sourceTwice (intent : RenameIntent) (previous index : ℕ) : String :=
  let shown := display intent.source
  s!"rename source appears more than once: {shown} (operations {previous} and {index})"

def destinationTwice (intent : RenameIntent) (previous index : ℕ) : String :=
  let shown := display intent.destination
  s!"rename end-state collision at {shown} (operations {previous} and {index})"

/-- `plan_rename_transaction` (rename_plan.rs:66). -/
def planRenameTransaction (fs : DirectoryTree) (baseDir : Path) (intents : List RenameIntent) : Except String RenameTransactionPlan := do
  let baseDir ← lexicalAbsolute display baseDir
  rejectUnstablePath display baseDir
  let normalized ← intents.mapM (normalizeIntent display baseDir)
  checkKeys casefoldPath RenameIntent.source (sourceTwice display) [] normalized
  checkKeys casefoldPath RenameIntent.destination (destinationTwice display) [] normalized
  let sourcePathKeys := normalized.map fun intent => casefoldPath intent.source
  let plan ← planEntries display casefoldPath fs sourcePathKeys ⟨[], []⟩ normalized
  checkNesting display fs plan.entries
  return plan

end

end Rename
