import Tonepoet.Scheduler.Steps

/-!
# The pool loses and duplicates no unit

A permit is free, or held by an admitted unit until a worker that has popped the unit gives it back.
Every admitted unit is still to be pushed or was pushed once, and what was pushed is what was popped, in
order, followed by the queue.
-/

namespace Scheduler

open Transition

variable {U : Type}

/-- The permits a worker has still to give back. -/
def Worker.unreturned : Worker U → ℕ
  | .popped _ => 1
  | _ => 0

namespace State

/-- The units admitted and not yet pushed. -/
def admittedUnits (s : State U) : List U := s.calls.flatMap Call.admittedUnits

/-- Units popped whose permit is not given back yet. -/
def unreturned (s : State U) : ℕ := (s.pool.workers.map Worker.unreturned).sum

/-- The permits and the units that hold one. -/
def accounted (s : State U) : ℕ :=
  s.pool.permits + (s.calls.map fun c => c.admittedUnits.length).sum + s.pool.queue.length + s.unreturned

theorem length_admittedUnits (s : State U) : s.admittedUnits.length = (s.calls.map fun c => c.admittedUnits.length).sum := by
  rw [admittedUnits, List.length_flatMap]

end State

/-! ## The history of a run -/

def Effect.admittedUnits : Effect U → List U
  | .admitted units => units
  | _ => []

def Effect.pushedUnits : Effect U → List U
  | .pushed units => units
  | _ => []

def Effect.poppedUnits : Effect U → List U
  | .popped _ unit => [unit]
  | _ => []

/-- The units admitted, pushed and popped in a run, in order. -/
def admittedIn (es : List (Event U × Effect U)) : List U := es.flatMap fun e => e.2.admittedUnits
def pushedIn (es : List (Event U × Effect U)) : List U := es.flatMap fun e => e.2.pushedUnits
def poppedIn (es : List (Event U × Effect U)) : List U := es.flatMap fun e => e.2.poppedUnits

/-! ## One step -/

/-- Taking permits changes nothing but the permits. -/
theorem tryAcquire_frame {pool pool' : SharedWorkerPool U} {count : ℕ} (h : pool.tryAcquire count = some pool') :
    ∃ permits, pool' = { pool with permits } := by
  rw [SharedWorkerPool.tryAcquire] at h
  rcases hcap : pool.readyCapacity with _ | capacity
  · rw [hcap] at h
    cases h
    exact ⟨pool.permits, by rw [← hcap]⟩
  · rw [hcap] at h
    dsimp only at h
    by_cases hle : count ≤ pool.permits
    · rw [if_pos hle] at h
      cases h
      exact ⟨pool.permits - count, by rw [← hcap]⟩
    · rw [if_neg hle] at h
      cases h

theorem permits_of_tryAcquire {pool pool' : SharedWorkerPool U} {count capacity : ℕ} (hcap : pool.readyCapacity = some capacity)
    (h : pool.tryAcquire count = some pool') : pool'.permits + count = pool.permits := by
  rw [SharedWorkerPool.tryAcquire, hcap] at h
  dsimp only at h
  by_cases hle : count ≤ pool.permits
  · rw [if_pos hle] at h
    cases h
    exact Nat.sub_add_cancel hle
  · rw [if_neg hle] at h
    cases h

theorem permits_of_addPermit {pool : SharedWorkerPool U} {capacity : ℕ} (hcap : pool.readyCapacity = some capacity) :
    pool.addPermit.permits = pool.permits + 1 := by rw [SharedWorkerPool.addPermit, hcap]

theorem addPermit_frame (pool : SharedWorkerPool U) : ∃ permits, pool.addPermit = { pool with permits } := by
  rw [SharedWorkerPool.addPermit]
  split
  · exact ⟨pool.permits, rfl⟩
  · exact ⟨pool.permits + 1, rfl⟩

variable {s t : State U} {e : Event U} {eff : Effect U}

theorem Moves.readyCapacity_eq (h : Moves s e t eff) : t.pool.readyCapacity = s.pool.readyCapacity := by
  cases h with
  | enter _ hpool | grant _ _ hpool =>
    obtain ⟨permits, rfl⟩ := tryAcquire_frame hpool
    rfl
  | addPermit =>
    obtain ⟨permits, hpool⟩ := addPermit_frame s.pool
    rw [State.setWorker_readyCapacity, hpool]
  | _ => rfl

/-- A worker that neither held a popped unit before nor does after leaves the account alone. -/
theorem sum_unreturned_set {i : ℕ} {w w' : Worker U} (hw : s.pool.workers[i]? = some w) (h : w.unreturned = 0)
    (h' : w'.unreturned = 0) :
    ((s.pool.workers.set i w').map Worker.unreturned).sum = (s.pool.workers.map Worker.unreturned).sum := by
  have hsum := sum_map_set Worker.unreturned w' hw
  omega

theorem setWorker_accounted {i : ℕ} {w w' : Worker U} {stored : Bool} (hw : s.pool.workers[i]? = some w)
    (h : w.unreturned = 0) (h' : w'.unreturned = 0) :
    (State.setWorker { s with pool := { s.pool with stored } } i w').accounted = s.accounted := by
  simp only [State.accounted, State.unreturned, State.setWorker_calls, State.setWorker_permits, State.setWorker_queue,
    State.setWorker_workers, sum_unreturned_set hw h h']

/-- **No step changes the account.** -/
theorem Moves.accounted_eq {capacity : ℕ} (hcap : s.pool.readyCapacity = some capacity) (h : Moves s e t eff) :
    t.accounted = s.accounted := by
  have hcall : ∀ {i : ℕ} {c : Call U} (c' : Call U), s.calls[i]? = some c →
      ((s.calls.set i c').map fun c => c.admittedUnits.length).sum + c.admittedUnits.length =
        (s.calls.map fun c => c.admittedUnits.length).sum + c'.admittedUnits.length :=
    fun c' hc => sum_map_set (fun c => c.admittedUnits.length) c' hc
  cases h with
  | nothing | reject | cancel => rfl
  | wait _ hc =>
    simp only [State.accounted, State.unreturned, State.startCall_pool, State.startCall_calls, sum_map_concat,
      admittedUnits_of_waiting hc, List.length_nil, Nat.add_zero]
  | enter e hpool =>
    have hp := permits_of_tryAcquire hcap hpool
    obtain ⟨permits, rfl⟩ := tryAcquire_frame hpool
    simp only [State.accounted, State.unreturned, State.startCall_pool, State.startCall_calls, sum_map_concat,
      Call.admittedUnits]
    dsimp only at hp
    omega
  | @grant i c units pool hc hunits hpool =>
    have hp := permits_of_tryAcquire hcap hpool
    have hsum := hcall (.admitted units) hc
    rw [admittedUnits_of_waiting hunits] at hsum
    obtain ⟨permits, rfl⟩ := tryAcquire_frame hpool
    simp only [State.accounted, State.unreturned, State.setCall_pool, State.setCall_calls]
    simp only [Call.admittedUnits, List.length_nil] at hsum hp ⊢
    omega
  | leave hc hunits heff =>
    have hsum := hcall .done hc
    rw [admittedUnits_of_waiting hunits] at hsum
    simp only [State.accounted, State.unreturned, State.setCall_pool, State.setCall_calls]
    simp only [Call.admittedUnits, List.length_nil] at hsum ⊢
    omega
  | @push i units hc =>
    have hsum := hcall (.notifying units.length) hc
    simp only [State.accounted, State.unreturned, State.setCall_pool, State.setCall_calls, List.length_append]
    simp only [Call.admittedUnits, List.length_nil] at hsum ⊢
    omega
  | @wake i j left hc hj =>
    have hsum := hcall (.notifying left) hc
    have hworkers := @sum_unreturned_set _ _ _ _ .notified hj rfl rfl
    simp only [State.accounted, State.unreturned, State.setCall_pool, State.setCall_calls, State.setWorker_calls,
      State.setWorker_permits, State.setWorker_queue, State.setWorker_workers, hworkers]
    simp only [Call.admittedUnits, List.length_nil] at hsum ⊢
    omega
  | @store i left hc hnone =>
    have hsum := hcall (.notifying left) hc
    simp only [State.accounted, State.unreturned, State.setCall_pool, State.setCall_calls]
    simp only [Call.admittedUnits, List.length_nil] at hsum ⊢
    omega
  | @exit i w hw hcancelled hphase =>
    have hzero : w.unreturned = 0 := by rcases hphase with rfl | rfl | rfl | rfl | rfl <;> rfl
    exact setWorker_accounted hw hzero rfl
  | @popEmpty i w hw hphase hqueue =>
    have hzero : w.unreturned = 0 := by rcases hphase with rfl | rfl <;> rfl
    exact setWorker_accounted hw hzero rfl
  | @pop i w unit queue hw hphase hqueue =>
    have hzero : w.unreturned = 0 := by rcases hphase with rfl | rfl <;> rfl
    have hsum := sum_map_set Worker.unreturned (.popped unit) hw
    simp only [State.accounted, State.unreturned, State.setWorker_calls, State.setWorker_permits, State.setWorker_queue,
      State.setWorker_workers, hqueue, List.length_cons]
    rw [hzero, Worker.unreturned] at hsum
    omega
  | @addPermit i unit hw =>
    have hsum := sum_map_set Worker.unreturned (.busy unit) hw
    have hp := permits_of_addPermit hcap
    obtain ⟨permits, hpool⟩ := addPermit_frame s.pool
    rw [hpool] at hp ⊢
    simp only [State.accounted, State.unreturned, State.setWorker_calls, State.setWorker_permits, State.setWorker_queue,
      State.setWorker_workers]
    simp only [Worker.unreturned] at hsum hp
    omega
  | consume hw | park hw | resume hw => exact setWorker_accounted hw rfl rfl
  | @send i unit w hw hnext =>
    have hzero : w.unreturned = 0 := by rcases hnext with rfl | rfl <;> rfl
    exact setWorker_accounted hw rfl hzero

/-- A step pushes at the back of the queue and pops at its front. -/
theorem Moves.queue_eq (h : Moves s e t eff) : s.pool.queue ++ eff.pushedUnits = eff.poppedUnits ++ t.pool.queue := by
  cases h with
  | enter _ hpool | grant _ _ hpool =>
    obtain ⟨permits, rfl⟩ := tryAcquire_frame hpool
    exact List.append_nil _
  | leave _ _ heff => rcases heff with rfl | rfl <;> exact List.append_nil _
  | push => rfl
  | pop _ _ hqueue =>
    rw [hqueue]
    exact List.append_nil _
  | addPermit =>
    obtain ⟨permits, hpool⟩ := addPermit_frame s.pool
    rw [State.setWorker_queue, hpool]
    exact List.append_nil _
  | _ => exact List.append_nil _

/-- A call that neither had admitted units before nor has after leaves them alone. -/
theorem admittedUnits_setCall {i : ℕ} {c c' : Call U} (hc : s.calls[i]? = some c) (h : c.admittedUnits = [])
    (h' : c'.admittedUnits = []) : ((s.calls.set i c').flatMap Call.admittedUnits).Perm s.admittedUnits := by
  have hperm := flatMap_set_perm Call.admittedUnits c' hc
  rwa [h, h', List.append_nil, List.append_nil] at hperm

/-- What a step admits is added to the admitted units and what it pushes is taken from them. -/
theorem Moves.admitted_perm (h : Moves s e t eff) :
    (s.admittedUnits ++ eff.admittedUnits).Perm (t.admittedUnits ++ eff.pushedUnits) := by
  cases h with
  | wait _ hc =>
    rw [State.admittedUnits, State.admittedUnits, State.startCall_calls, flatMap_concat, admittedUnits_of_waiting hc]
    exact .of_eq (congrArg (· ++ []) (List.append_nil _).symm)
  | enter e hpool =>
    rw [State.admittedUnits, State.admittedUnits, State.startCall_calls, flatMap_concat]
    exact .symm (.of_eq (List.append_nil _))
  | @grant i c units pool hc hunits hpool =>
    have hperm := flatMap_set_perm Call.admittedUnits (.admitted units) hc
    rw [admittedUnits_of_waiting hunits] at hperm
    exact hperm.symm
  | leave hc hunits heff =>
    have hperm := @admittedUnits_setCall _ _ _ _ .done hc (admittedUnits_of_waiting hunits) rfl
    rcases heff with rfl | rfl <;> exact (hperm.append_right []).symm
  | @push i units hc =>
    have hperm := flatMap_set_perm Call.admittedUnits (.notifying units.length) hc
    exact hperm.symm
  | wake hc | store hc => exact ((admittedUnits_setCall hc rfl rfl).append_right []).symm
  | _ => exact .refl _

/-- What a rejecting step gives back, and that it leaves the pool alone. -/
theorem Moves.rejected {r : SubmitError U} (h : Moves s e t (.rejected r)) :
    t.pool = s.pool ∧ (t = s ∧ r.intoUnits = e.units ∨
      ∃ (i : ℕ) (c : Call U), s.calls[i]? = some c ∧ c.waitingUnits = some r.intoUnits ∧ t = s.setCall i .done) := by
  cases h with
  | reject _ hr => exact ⟨rfl, .inl ⟨rfl, hr⟩⟩
  | leave hc hunits heff =>
    rcases heff with heff | heff
    · cases heff
    · obtain rfl := Effect.rejected.inj heff
      exact ⟨rfl, .inr ⟨_, _, hc, hunits, rfl⟩⟩

/-- A push is of a whole admitted batch, to consecutive places at the back of the queue. -/
theorem Moves.pushed {units : List U} (h : Moves s e t (.pushed units)) :
    (∃ i : ℕ, s.calls[i]? = some (.admitted units)) ∧ t.pool.queue = s.pool.queue ++ units := by
  generalize heff : Effect.pushed units = eff at h
  cases h with
  | push hc =>
    obtain rfl := Effect.pushed.inj heff
    exact ⟨⟨_, hc⟩, rfl⟩
  | leave _ _ h => rcases h with rfl | rfl <;> cases heff
  | _ => cases heff

/-! ## Runs -/

/-- The invariant of a run of a pool with a limit, or without one. -/
structure Conserved (readyCapacity : Option ℕ) (es : List (Event U × Effect U)) (s : State U) : Prop where
  limit : s.pool.readyCapacity = readyCapacity
  accounted : ∀ capacity, readyCapacity = some capacity → s.accounted = capacity
  fifo : pushedIn es = poppedIn es ++ s.pool.queue
  conserved : (admittedIn es).Perm (s.admittedUnits ++ pushedIn es)

theorem conserved_init (workerCount : ℕ) (readyCapacity : Option ℕ) :
    Conserved (readyCapacity.map (max · 1)) [] (State.init workerCount readyCapacity : State U) := by
  refine ⟨rfl, fun capacity hcap => ?_, rfl, .refl _⟩
  simp [State.accounted, State.unreturned, State.init, SharedWorkerPool.withLimits, hcap, Worker.unreturned]

theorem Conserved.step {readyCapacity : Option ℕ} {es : List (Event U × Effect U)} {a : Event U × Effect U}
    (h : Conserved readyCapacity es s) (hstep : Step s a t) : Conserved readyCapacity (es ++ [a]) t := by
  have hmoves := moves_of_step hstep
  refine ⟨hmoves.readyCapacity_eq.trans h.limit, fun capacity hcap => ?_, ?_, ?_⟩
  · rw [hmoves.accounted_eq (h.limit.trans hcap), h.accounted capacity hcap]
  · rw [pushedIn, poppedIn, flatMap_concat, flatMap_concat, ← pushedIn, ← poppedIn, h.fifo, List.append_assoc,
      List.append_assoc, hmoves.queue_eq]
  · rw [admittedIn, pushedIn, flatMap_concat, flatMap_concat, ← admittedIn, ← pushedIn]
    calc (admittedIn es ++ a.2.admittedUnits).Perm (s.admittedUnits ++ pushedIn es ++ a.2.admittedUnits) :=
          h.conserved.append_right _
      List.Perm _ (s.admittedUnits ++ a.2.admittedUnits ++ pushedIn es) := by
          rw [List.append_assoc, List.append_assoc]
          exact List.perm_append_comm.append_left _
      List.Perm _ (t.admittedUnits ++ a.2.pushedUnits ++ pushedIn es) := hmoves.admitted_perm.append_right _
      List.Perm _ (t.admittedUnits ++ (pushedIn es ++ a.2.pushedUnits)) := by
          rw [List.append_assoc]
          exact List.perm_append_comm.append_left _

/-- **The shared worker pool loses and duplicates no ready unit.** The permits, the units admitted and not
    yet pushed, the queue and the units popped whose permit is not given back yet make up the capacity. Units
    are popped once each, in the order of pushing; a batch is pushed whole; what is rejected comes back
    whole and the pool is as it was. -/
theorem pool_conserves (workerCount : ℕ) (readyCapacity : Option ℕ) (es : List (Event U × Effect U)) (s : State U)
    (h : Run Step (State.init workerCount readyCapacity) es s) :
    (∀ capacity, readyCapacity = some capacity →
      s.pool.permits + s.admittedUnits.length + s.pool.queue.length + s.unreturned = max capacity 1 ∧
        s.pool.queue.length ≤ max capacity 1) ∧
    pushedIn es = poppedIn es ++ s.pool.queue ∧
    (admittedIn es).Perm (s.admittedUnits ++ (poppedIn es ++ s.pool.queue)) ∧
    (∀ e t units, Step s (e, .pushed units) t →
      (∃ i : ℕ, s.calls[i]? = some (.admitted units)) ∧ t.pool.queue = s.pool.queue ++ units) ∧
    (∀ e t r, Step s (e, .rejected r) t → t.pool = s.pool ∧ (t = s ∧ r.intoUnits = e.units ∨
      ∃ (i : ℕ) (c : Call U), s.calls[i]? = some c ∧ c.waitingUnits = some r.intoUnits ∧ t = s.setCall i .done)) := by
  have hinv : Conserved (readyCapacity.map (max · 1)) es s :=
    h.invariant (Conserved _) (conserved_init _ _) fun _ _ _ _ hI hstep => hI.step hstep
  refine ⟨?_, hinv.fifo, hinv.fifo ▸ hinv.conserved, fun e t units hstep => (moves_of_step hstep).pushed,
    fun e t r hstep => (moves_of_step hstep).rejected⟩
  rintro capacity rfl
  have haccount : s.accounted = max capacity 1 := hinv.accounted _ rfl
  rw [State.accounted, ← State.length_admittedUnits] at haccount
  exact ⟨haccount, by omega⟩

/-- Between a pop and the return of its permit, the permits, the admitted units and the queue fall short. -/
theorem pool_popped_unit_unaccounted : ∃ es s, Run Step (State.init 1 (some 1) : State ℕ) es s ∧
    s.pool.permits + s.admittedUnits.length + s.pool.queue.length ≠ 1 := by
  have hplay : ((State.init 1 (some 1) : State ℕ).play [.trySubmit 7, .push 0, .pop 0]).isSome = true := rfl
  obtain ⟨⟨es, s⟩, hs⟩ := Option.isSome_iff_exists.1 hplay
  refine ⟨es, s, run_of_play _ hs fun _ _ _ _ _ h => h, ?_⟩
  cases hs
  decide

theorem pool_conserves_one_unit : ∃ es s, Run Step (State.init 1 (some 1) : State ℕ) es s ∧
    pushedIn es = poppedIn es ++ s.pool.queue ∧ poppedIn es = [7] := by
  have hplay : ((State.init 1 (some 1) : State ℕ).play [.trySubmit 7, .push 0, .pop 0]).isSome = true := rfl
  obtain ⟨⟨es, s⟩, hs⟩ := Option.isSome_iff_exists.1 hplay
  refine ⟨es, s, run_of_play _ hs fun _ _ _ _ _ h => h, (pool_conserves 1 (some 1) es s (run_of_play _ hs fun _ _ _ _ _ h => h)).2.1, ?_⟩
  cases hs
  rfl

end Scheduler
