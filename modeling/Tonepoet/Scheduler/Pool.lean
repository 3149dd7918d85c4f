import Tonepoet.Library.Transition

/-!
# The shared worker pool (convert/pipeline/scheduler.rs:395-772)

A call of the pool and a worker both move in atomic steps: a permit is taken, units are pushed under the
queue's lock, one waiter is notified, a unit is popped, a permit is given back. Any call and any worker
may move next. The semaphore, the mutex and `Notify` behave as documented: a permit is handed out only
when one is free, and `notify_one` wakes one registered waiter or else stores at most one notification.

The tasks of the units, the metrics and the result channel's contents are left out: no step depends on
them.
-/

namespace Scheduler

variable {U : Type}

/-- `TrySubmitError`, `TrySubmitManyError` and `SubmitManyError`, with the units they give back. -/
inductive SubmitError (U : Type) where
  | queueFull (units : List U) (capacity depth : ℕ)
  | batchTooLarge (units : List U) (capacity : ℕ)
  | cancelled (units : List U)

/-- `into_units`. -/
def SubmitError.intoUnits : SubmitError U → List U
  | .queueFull units _ _ | .batchTooLarge units _ | .cancelled units => units

/-- Where a call of the pool is. -/
inductive Call (U : Type) where
  /-- `submit`, awaiting its permit. -/
  | submitWaiting (unit : U)
  /-- `submit_many`, awaiting its permits. -/
  | submitManyWaiting (units : List U)
  /-- The permits are forgotten, the units are not pushed yet. -/
  | admitted (units : List U)
  /-- The units are pushed, so many `notify_one` calls are still to come. -/
  | notifying (left : ℕ)
  | done

/-- Where a worker is in `worker_loop`. -/
inductive Worker (U : Type) where
  /-- At the head of the loop: not started, or a result was just sent. -/
  | loopHead
  /-- At the head of the loop after `notified()` returned. -/
  | awake
  /-- Popped, and the permit not given back yet. -/
  | popped (unit : U)
  /-- Found the queue empty, and `notified()` not polled yet. -/
  | idle
  /-- A registered waiter. -/
  | parked
  /-- A waiter that `notify_one` has chosen. -/
  | notified
  /-- Runs the task of a unit or sends its result. -/
  | busy (unit : U)
  | exited
  deriving DecidableEq

/-- A registered waiter of the `Notify`. -/
def Worker.isParked : Worker U → Bool
  | .parked => true
  | _ => false

structure SharedWorkerPool (U : Type) where
  queue : List U
  /-- The permits the semaphore has, where there is a limit. -/
  permits : ℕ
  /-- The stored notification. -/
  stored : Bool
  cancelled : Bool
  readyCapacity : Option ℕ
  workers : List (Worker U)

/-- The pool with the calls in progress. -/
structure State (U : Type) where
  pool : SharedWorkerPool U
  calls : List (Call U)

/-- `with_limits` and `start`, with `PoolLimits::normalized`. -/
def SharedWorkerPool.withLimits (workerCount : ℕ) (readyCapacity : Option ℕ) : SharedWorkerPool U :=
  let readyCapacity := readyCapacity.map (max · 1)
  ⟨[], readyCapacity.getD 0, false, false, readyCapacity, List.replicate (max workerCount 1) .loopHead⟩

def State.init (workerCount : ℕ) (readyCapacity : Option ℕ) : State U := ⟨.withLimits workerCount readyCapacity, []⟩

/-- `try_acquire_many_owned` with the permits forgotten. Without a limit there is no semaphore. -/
def SharedWorkerPool.tryAcquire (pool : SharedWorkerPool U) (count : ℕ) : Option (SharedWorkerPool U) :=
  match pool.readyCapacity with
  | none => some pool
  | some _ => if count ≤ pool.permits then some { pool with permits := pool.permits - count } else none

/-- `space.add_permits(1)`. -/
def SharedWorkerPool.addPermit (pool : SharedWorkerPool U) : SharedWorkerPool U :=
  match pool.readyCapacity with
  | none => pool
  | some _ => { pool with permits := pool.permits + 1 }

/-- `QueueFull`. -/
def SharedWorkerPool.queueFull (pool : SharedWorkerPool U) (units : List U) : SubmitError U :=
  let capacity := pool.readyCapacity.getD 0
  .queueFull units capacity (capacity - pool.permits)

/-- The largest `u32`. -/
def u32Max : ℕ := 2 ^ 32 - 1

/-- What a step does to the units. -/
inductive Effect (U : Type) where
  | none
  | admitted (units : List U)
  | pushed (units : List U)
  | popped (worker : ℕ) (unit : U)
  | rejected (e : SubmitError U)
  /-- A `submit` whose wait is cancelled, or a call dropped by its caller while it waits. -/
  | dropped (units : List U)

/-- Which call or worker moves, and how the choices left open fall. -/
inductive Event (U : Type) where
  | submit (unit : U)
  | trySubmit (unit : U)
  | submitMany (units : List U)
  | trySubmitMany (units : List U)
  /-- A waiting call gets its permits. -/
  | grant (call : ℕ)
  /-- A waiting call sees the cancellation. -/
  | cancelWait (call : ℕ)
  /-- The caller drops a waiting call. -/
  | dropCall (call : ℕ)
  | push (call : ℕ)
  /-- One `notify_one`; the waiter it wakes, where one is registered. -/
  | notifyOne (call : ℕ) (waiter : Option ℕ)
  | cancel
  /-- The worker leaves the loop: it sees the cancellation at the loop's head or while it waits. -/
  | workerCancelled (worker : ℕ)
  /-- The worker pops. The check before it may be older than a cancellation. -/
  | pop (worker : ℕ)
  | addPermit (worker : ℕ)
  /-- The worker polls `notified()` for the first time. -/
  | pollNotified (worker : ℕ)
  /-- `notified()` returns. -/
  | resume (worker : ℕ)
  /-- The result is sent, or there is nobody to send it to. -/
  | sendResult (worker : ℕ) (sent : Bool)

namespace State

def setWorker (s : State U) (i : ℕ) (w : Worker U) : State U :=
  { s with pool := { s.pool with workers := s.pool.workers.set i w } }

def setCall (s : State U) (i : ℕ) (c : Call U) : State U := { s with calls := s.calls.set i c }

def startCall (s : State U) (c : Call U) : State U := { s with calls := s.calls ++ [c] }

/-- Admit a batch now or give it back (`try_submit_inner`, `try_submit_many`). -/
def tryAdmit (s : State U) (units : List U) : State U × Effect U :=
  match s.pool.tryAcquire units.length with
  | some pool => ({ s with pool }.startCall (.admitted units), .admitted units)
  | none => (s, .rejected (s.pool.queueFull units))

/-- `submit` up to its await. -/
def submit (s : State U) (unit : U) : State U × Effect U :=
  match s.pool.readyCapacity with
  | none => (s.startCall (.admitted [unit]), .admitted [unit])
  | some _ => (s.startCall (.submitWaiting unit), .none)

/-- The checks a batch meets before any permit: an empty one is done, a too large one is given back. -/
def checkBatch (s : State U) (units : List U) (admitted : State U × Effect U) : State U × Effect U :=
  if units.isEmpty then (s, .none)
  else
    match s.pool.readyCapacity with
    | none => (s.startCall (.admitted units), .admitted units)
    | some capacity =>
      if units.length > capacity then (s, .rejected (.batchTooLarge units capacity))
      else if units.length > u32Max then (s, .rejected (.batchTooLarge units capacity))
      else admitted

/-- `submit_many` up to its await. -/
def submitMany (s : State U) (units : List U) : State U × Effect U :=
  s.checkBatch units (s.startCall (.submitManyWaiting units), .none)

/-- `try_submit_many` up to the push. -/
def trySubmitMany (s : State U) (units : List U) : State U × Effect U := s.checkBatch units (s.tryAdmit units)

/-- The permits of a waiting call. -/
def grant (s : State U) (i : ℕ) (units : List U) : Option (State U × Effect U) :=
  (s.pool.tryAcquire units.length).map fun pool => ({ s with pool }.setCall i (.admitted units), .admitted units)

/-- `notify_one`: a registered waiter if there is one, else the stored notification. -/
def notifyOne (s : State U) (waiter : Option ℕ) : Option (State U) :=
  match waiter with
  | some j => if s.pool.workers[j]?.any Worker.isParked then some (s.setWorker j .notified) else none
  | none => if s.pool.workers.any Worker.isParked then none else some { s with pool := { s.pool with stored := true } }

/-- One atomic step. -/
def step (s : State U) : Event U → Option (State U × Effect U)
  | .submit unit => some (s.submit unit)
  | .trySubmit unit => some (s.tryAdmit [unit])
  | .submitMany units => some (s.submitMany units)
  | .trySubmitMany units => some (s.trySubmitMany units)
  | .grant i =>
    match s.calls[i]? with
    | some (.submitWaiting unit) => s.grant i [unit]
    | some (.submitManyWaiting units) => s.grant i units
    | _ => none
  | .cancelWait i =>
    match s.pool.cancelled, s.calls[i]? with
    | true, some (.submitWaiting unit) => some (s.setCall i .done, .dropped [unit])
    | true, some (.submitManyWaiting units) => some (s.setCall i .done, .rejected (.cancelled units))
    | _, _ => none
  | .dropCall i =>
    match s.calls[i]? with
    | some (.submitWaiting unit) => some (s.setCall i .done, .dropped [unit])
    | some (.submitManyWaiting units) => some (s.setCall i .done, .dropped units)
    | _ => none
  | .push i =>
    match s.calls[i]? with
    | some (.admitted units) =>
      some ({ s with pool := { s.pool with queue := s.pool.queue ++ units } }.setCall i (.notifying units.length),
        .pushed units)
    | _ => none
  | .notifyOne i waiter =>
    match s.calls[i]? with
    | some (.notifying (left + 1)) => (s.notifyOne waiter).map fun s => (s.setCall i (.notifying left), .none)
    | _ => none
  | .cancel => some ({ s with pool := { s.pool with cancelled := true } }, .none)
  | .workerCancelled i =>
    match s.pool.cancelled, s.pool.workers[i]? with
    | true, some .loopHead | true, some .awake | true, some .idle | true, some .parked | true, some .notified =>
      some (s.setWorker i .exited, .none)
    | _, _ => none
  | .pop i =>
    match s.pool.workers[i]? with
    | some .loopHead | some .awake =>
      match s.pool.queue with
      | [] => some (s.setWorker i .idle, .none)
      | unit :: queue => some ({ s with pool := { s.pool with queue } }.setWorker i (.popped unit), .popped i unit)
    | _ => none
  | .addPermit i =>
    match s.pool.workers[i]? with
    | some (.popped unit) => some ({ s with pool := s.pool.addPermit }.setWorker i (.busy unit), .none)
    | _ => none
  | .pollNotified i =>
    match s.pool.workers[i]? with
    | some .idle =>
      if s.pool.stored then some ({ s with pool := { s.pool with stored := false } }.setWorker i .awake, .none)
      else some (s.setWorker i .parked, .none)
    | _ => none
  | .resume i =>
    match s.pool.workers[i]? with
    | some .notified => some (s.setWorker i .awake, .none)
    | _ => none
  | .sendResult i sent =>
    match s.pool.workers[i]? with
    | some (.busy _) => some (s.setWorker i (if sent then .loopHead else .exited), .none)
    | _ => none

end State

end Scheduler
