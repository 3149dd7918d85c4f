import Tonepoet.Concurrency.PathClaims
import Tonepoet.Library.Transition

/-!
# Mutation claims between sessions (concurrency.rs:1639-2736)

Sessions share a directory of lease descriptors. An admission holds the registry lock: it scans the
published descriptors one by one and then publishes its own. Everything else may happen between two of its
steps: guards are dropped, processes die, other scanners probe a lock for a moment. A descriptor is live
while an owner holds its file lock.

Descriptor bodies are read as written (a malformed one ends the admission like any other I/O error), and
an identifier is never drawn twice. Log texts are left out.
-/

namespace Concurrency

/-- `Uuid`. -/
abbrev Uuid := ℕ

inductive LeaseFamily where
  | journalOperation (jobId : Uuid)
  | queueScope (scopeId : Uuid)
  | queueExecution (executionId : Uuid)
  | executionClaim (executionId : Uuid)
  | executionStaging (executionId : Uuid)
  | ephemeralMutation (claimId : Uuid)
  deriving DecidableEq, Repr

namespace LeaseFamily

def lifecycleId : LeaseFamily → Uuid
  | .journalOperation id | .queueScope id | .queueExecution id | .executionClaim id | .executionStaging id
  | .ephemeralMutation id => id

def carriesPathClaims : LeaseFamily → Bool
  | .queueScope _ | .queueExecution _ => false
  | _ => true

def reserveAfterOwnerDeath : LeaseFamily → Bool
  | .journalOperation _ | .queueExecution _ | .executionClaim _ | .executionStaging _ => true
  | _ => false

def isQueueScope : LeaseFamily → Bool
  | .queueScope _ => true
  | _ => false

/-- `singular_lifecycle`: at most one descriptor of these for a lifecycle. -/
def singularLifecycle : LeaseFamily → Bool
  | .journalOperation _ | .queueScope _ | .queueExecution _ => true
  | _ => false

def isExecution : LeaseFamily → Bool
  | .queueExecution _ | .executionClaim _ | .executionStaging _ => true
  | _ => false

end LeaseFamily

inductive ClaimAvailability where
  | live
  | recoveryReserved
  | reclaimableEphemeral
  deriving DecidableEq, Repr

/-- `classify_availability` (concurrency.rs:126). -/
def classifyAvailability (family : LeaseFamily) (lockContended : Bool) : ClaimAvailability :=
  if lockContended then .live
  else if family.reserveAfterOwnerDeath || family.isQueueScope then .recoveryReserved
  else .reclaimableEphemeral

/-- `same_execution_lifecycle` (concurrency.rs:2706). -/
def sameExecutionLifecycle (left right : LeaseFamily) : Bool :=
  left.isExecution && right.isExecution && left.lifecycleId == right.lifecycleId

/-- `first_conflict` (concurrency.rs:2558). -/
def firstConflict (requested existing : List PathClaim) : Option (PathClaim × PathClaim) :=
  requested.findSome? fun left => existing.findSome? fun right => if left.conflictsWith right then some (left, right) else none

/-- Who asks for claims or holds them: what a `LeaseDescriptor` says of it. -/
structure Claimant where
  family : LeaseFamily
  claims : List PathClaim
  coordinationGroup : Option String

/-- The two exemptions of the scan. -/
def Claimant.exempt (requester existing : Claimant) : Bool :=
  sameExecutionLifecycle requester.family existing.family ||
    requester.coordinationGroup.any fun group => existing.coordinationGroup == some group

/-- Who holds the file lock of a descriptor. -/
inductive LockState where
  | free
  /-- A lease of this process. -/
  | owned (process : ℕ)
  /-- A scanner that probes it. -/
  | probed
  deriving DecidableEq, Repr

structure Descriptor where
  id : Uuid
  claimant : Claimant
  lock : LockState

/-- `try_lock_exclusive` is refused. -/
def Descriptor.contended (d : Descriptor) : Bool := d.lock != .free

def Descriptor.availability (d : Descriptor) : ClaimAvailability := classifyAvailability d.claimant.family d.contended

/-- An acquisition that holds the registry lock, with the descriptors it has still to look at. -/
structure Admission where
  requester : Claimant
  process : ℕ
  remaining : List Uuid

structure Registry where
  published : List Descriptor
  admission : Option Admission
  nextId : Uuid

/-- How an event ends the acquisition it belongs to, if it does. -/
inductive Outcome where
  | none
  | acquired (id : Uuid)
  | refused

inductive Event where
  /-- The registry lock is taken and the descriptors are listed. -/
  | begin (requester : Claimant) (process : ℕ)
  /-- The next descriptor; whether a reclaimable one could also be removed. -/
  | scan (removable : Bool)
  | publish
  /-- Any error of an acquisition other than a conflict. -/
  | abort
  /-- A lease without claims (`PersistentLease::create`). -/
  | create (family : LeaseFamily) (process : ℕ)
  /-- An ephemeral guard unpublishes its descriptor; its lock follows. -/
  | retire (id : Uuid)
  /-- The last file of a lease is closed, or its lock released. -/
  | close (id : Uuid)
  /-- A lease's file is handed to another process. -/
  | handOff (id : Uuid) (process : ℕ)
  /-- A process dies, and with it the locks it holds. -/
  | die (process : ℕ)
  | recover (id : Uuid) (family : LeaseFamily) (process : ℕ)
  /-- A lifecycle that has ended takes its descriptor away. -/
  | retireLifecycle (id : Uuid)
  | probe (id : Uuid)
  | unprobe (id : Uuid)

namespace Registry

def empty : Registry := ⟨[], none, 0⟩

def find (s : Registry) (id : Uuid) : Option Descriptor := s.published.find? fun d => d.id == id

def remove (s : Registry) (id : Uuid) : Registry := { s with published := s.published.filter fun d => d.id != id }

/-- Change the lock of the descriptors a process or an identifier picks out. -/
def setLock (s : Registry) (pick : Descriptor → Bool) (lock : LockState) : Registry :=
  { s with published := s.published.map fun d => if pick d then { d with lock } else d }

/-- `claim_descriptor_paths` (concurrency.rs:2738): the two queue families carry no claims and are skipped. -/
def claimDescriptorPaths (s : Registry) : List Uuid :=
  (s.published.filter fun d => d.claimant.family.carriesPathClaims).map Descriptor.id

/-- `create_while_registry_locked` (concurrency.rs:1649), with the lock already on the new descriptor. -/
def createWhileRegistryLocked (s : Registry) (requester : Claimant) (process : ℕ) : Option Registry :=
  if !requester.family.carriesPathClaims && !requester.claims.isEmpty then none
  else if requester.family.singularLifecycle && s.published.any (fun d => d.claimant.family == requester.family) then none
  else some { s with published := s.published ++ [⟨s.nextId, requester, .owned process⟩], nextId := s.nextId + 1 }

/-- The body of the scan loop of `acquire_grouped_internal` (concurrency.rs:2252). A descriptor that is gone is
    skipped; a reclaimable one is removed unless somebody has locked it since. -/
def scanDescriptor (s : Registry) (a : Admission) (id : Uuid) (rest : List Uuid) (removable : Bool) : Registry × Outcome :=
  let next : Registry := { s with admission := some { a with remaining := rest } }
  match s.find id with
  | none => (next, .none)
  | some d =>
    if a.requester.exempt d.claimant then (next, .none)
    else if d.availability = .reclaimableEphemeral then (if removable then next.remove id else next, .none)
    else if (firstConflict a.requester.claims d.claimant.claims).isSome then ({ s with admission := none }, .refused)
    else (next, .none)

/-- One step. -/
def step (s : Registry) : Event → Option (Registry × Outcome)
  | .begin requester process =>
    match s.admission with
    | none => some ({ s with admission := some ⟨requester, process, s.claimDescriptorPaths⟩ }, .none)
    | some _ => none
  | .scan removable =>
    match s.admission with
    | some a =>
      match a.remaining with
      | id :: rest => some (s.scanDescriptor a id rest removable)
      | [] => none
    | none => none
  | .publish =>
    match s.admission with
    | some a =>
      match a.remaining with
      | [] =>
        match s.createWhileRegistryLocked a.requester a.process with
        | some t => some ({ t with admission := none }, .acquired s.nextId)
        | none => some ({ s with admission := none }, .refused)
      | _ :: _ => none
    | none => none
  | .abort =>
    match s.admission with
    | some _ => some ({ s with admission := none }, .refused)
    | none => none
  | .create family process =>
    match s.admission with
    | none => (s.createWhileRegistryLocked ⟨family, [], none⟩ process).map fun t => (t, .none)
    | some _ => none
  | .retire id =>
    match s.find id with
    | some ⟨_, ⟨.ephemeralMutation _, _, _⟩, .owned _⟩ => some (s.remove id, .none)
    | _ => none
  | .close id =>
    match s.find id with
    | some ⟨_, _, .owned _⟩ => some (s.setLock (fun d => d.id == id) .free, .none)
    | _ => none
  | .handOff id process =>
    match s.find id with
    | some ⟨_, _, .owned _⟩ => some (s.setLock (fun d => d.id == id) (.owned process), .none)
    | _ => none
  | .die process => some (s.setLock (fun d => d.lock == .owned process) .free, .none)
  | .recover id family process =>
    match s.admission, s.find id with
    | none, some ⟨_, claimant, .free⟩ =>
      -- only lifecycles that outlive their owner are recovered
      if claimant.family = family ∧ (family.reserveAfterOwnerDeath || family.isQueueScope) = true then
        some (s.setLock (fun d => d.id == id) (.owned process), .none)
      else none
    | _, _ => none
  | .retireLifecycle id =>
    match s.admission, s.find id with
    | none, some ⟨_, _, .free⟩ => some (s.remove id, .none)
    | _, _ => none
  | .probe id =>
    match s.find id with
    | some ⟨_, _, .free⟩ => some (s.setLock (fun d => d.id == id) .probed, .none)
    | _ => none
  | .unprobe id =>
    match s.find id with
    | some ⟨_, _, .probed⟩ => some (s.setLock (fun d => d.id == id) .free, .none)
    | _ => none

end Registry

end Concurrency
