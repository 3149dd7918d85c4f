import Tonepoet.Scheduler.Pool

/-!
# What a step of the pool can do

Every step is one of a few moves of one call or one worker. The proofs about runs go by these moves and
not by the text of the step function.
-/

namespace Scheduler

open Transition

variable {U : Type}

/-- The units of a waiting call. -/
def Call.waitingUnits : Call U → Option (List U)
  | .submitWaiting unit => some [unit]
  | .submitManyWaiting units => some units
  | _ => none

/-- The units of a call that are admitted and not yet pushed. -/
def Call.admittedUnits : Call U → List U
  | .admitted units => units
  | _ => []

/-- The `notify_one` calls a call still owes. -/
def Call.owed : Call U → ℕ
  | .notifying left => left
  | _ => 0

/-- The units a call is started with. -/
def Event.units : Event U → List U
  | .submit unit | .trySubmit unit => [unit]
  | .submitMany units | .trySubmitMany units => units
  | _ => []

@[simp] theorem admittedUnits_of_waiting {c : Call U} {units : List U} (h : c.waitingUnits = some units) :
    c.admittedUnits = [] := by
  cases c <;> first | rfl | cases h

@[simp] theorem owed_of_waiting {c : Call U} {units : List U} (h : c.waitingUnits = some units) : c.owed = 0 := by
  cases c <;> first | rfl | cases h

theorem eq_parked {w : Worker U} (h : w.isParked = true) : w = .parked := by
  cases w <;> first | rfl | cases h

namespace State

@[simp] theorem setWorker_calls (s : State U) (i : ℕ) (w : Worker U) : (s.setWorker i w).calls = s.calls := rfl
@[simp] theorem setWorker_workers (s : State U) (i : ℕ) (w : Worker U) :
    (s.setWorker i w).pool.workers = s.pool.workers.set i w := rfl
@[simp] theorem setWorker_queue (s : State U) (i : ℕ) (w : Worker U) : (s.setWorker i w).pool.queue = s.pool.queue := rfl
@[simp] theorem setWorker_permits (s : State U) (i : ℕ) (w : Worker U) :
    (s.setWorker i w).pool.permits = s.pool.permits := rfl
@[simp] theorem setWorker_stored (s : State U) (i : ℕ) (w : Worker U) : (s.setWorker i w).pool.stored = s.pool.stored := rfl
@[simp] theorem setWorker_readyCapacity (s : State U) (i : ℕ) (w : Worker U) :
    (s.setWorker i w).pool.readyCapacity = s.pool.readyCapacity := rfl
@[simp] theorem setCall_pool (s : State U) (i : ℕ) (c : Call U) : (s.setCall i c).pool = s.pool := rfl
@[simp] theorem setCall_calls (s : State U) (i : ℕ) (c : Call U) : (s.setCall i c).calls = s.calls.set i c := rfl
@[simp] theorem startCall_pool (s : State U) (c : Call U) : (s.startCall c).pool = s.pool := rfl
@[simp] theorem startCall_calls (s : State U) (c : Call U) : (s.startCall c).calls = s.calls ++ [c] := rfl

end State

/-- The moves. -/
inductive Moves (s : State U) : Event U → State U → Effect U → Prop where
  /-- An empty batch. -/
  | nothing (e : Event U) : Moves s e s .none
  | wait (e : Event U) {c : Call U} (hc : c.waitingUnits = some e.units) : Moves s e (s.startCall c) .none
  | enter (e : Event U) {pool : SharedWorkerPool U} (hpool : s.pool.tryAcquire e.units.length = some pool) :
      Moves s e ({ s with pool }.startCall (.admitted e.units)) (.admitted e.units)
  | reject (e : Event U) {r : SubmitError U} (hr : r.intoUnits = e.units) : Moves s e s (.rejected r)
  | grant {i : ℕ} {c : Call U} {units : List U} {pool : SharedWorkerPool U} (hc : s.calls[i]? = some c)
      (hunits : c.waitingUnits = some units) (hpool : s.pool.tryAcquire units.length = some pool) :
      Moves s (.grant i) ({ s with pool }.setCall i (.admitted units)) (.admitted units)
  /-- A waiting call ends, its units given back or dropped. -/
  | leave {e : Event U} {i : ℕ} {c : Call U} {units : List U} {eff : Effect U} (hc : s.calls[i]? = some c)
      (hunits : c.waitingUnits = some units) (heff : eff = .dropped units ∨ eff = .rejected (.cancelled units)) :
      Moves s e (s.setCall i .done) eff
  | push {i : ℕ} {units : List U} (hc : s.calls[i]? = some (.admitted units)) :
      Moves s (.push i)
        ({ s with pool := { s.pool with queue := s.pool.queue ++ units } }.setCall i (.notifying units.length))
        (.pushed units)
  | wake {i j left : ℕ} (hc : s.calls[i]? = some (.notifying (left + 1))) (hj : s.pool.workers[j]? = some .parked) :
      Moves s (.notifyOne i (some j)) ((s.setWorker j .notified).setCall i (.notifying left)) .none
  | store {i left : ℕ} (hc : s.calls[i]? = some (.notifying (left + 1))) (hnone : ∀ w ∈ s.pool.workers, w ≠ .parked) :
      Moves s (.notifyOne i none) ({ s with pool := { s.pool with stored := true } }.setCall i (.notifying left)) .none
  | cancel : Moves s .cancel { s with pool := { s.pool with cancelled := true } } .none
  | exit {i : ℕ} {w : Worker U} (hw : s.pool.workers[i]? = some w) (hcancelled : s.pool.cancelled = true)
      (hphase : w = .loopHead ∨ w = .awake ∨ w = .idle ∨ w = .parked ∨ w = .notified) :
      Moves s (.workerCancelled i) (s.setWorker i .exited) .none
  | popEmpty {i : ℕ} {w : Worker U} (hw : s.pool.workers[i]? = some w) (hphase : w = .loopHead ∨ w = .awake)
      (hqueue : s.pool.queue = []) : Moves s (.pop i) (s.setWorker i .idle) .none
  | pop {i : ℕ} {w : Worker U} {unit : U} {queue : List U} (hw : s.pool.workers[i]? = some w)
      (hphase : w = .loopHead ∨ w = .awake) (hqueue : s.pool.queue = unit :: queue) :
      Moves s (.pop i) ({ s with pool := { s.pool with queue } }.setWorker i (.popped unit)) (.popped i unit)
  | addPermit {i : ℕ} {unit : U} (hw : s.pool.workers[i]? = some (.popped unit)) :
      Moves s (.addPermit i) ({ s with pool := s.pool.addPermit }.setWorker i (.busy unit)) .none
  | consume {i : ℕ} (hw : s.pool.workers[i]? = some .idle) (hstored : s.pool.stored = true) :
      Moves s (.pollNotified i) ({ s with pool := { s.pool with stored := false } }.setWorker i .awake) .none
  | park {i : ℕ} (hw : s.pool.workers[i]? = some .idle) (hstored : s.pool.stored = false) :
      Moves s (.pollNotified i) (s.setWorker i .parked) .none
  | resume {i : ℕ} (hw : s.pool.workers[i]? = some .notified) : Moves s (.resume i) (s.setWorker i .awake) .none
  | send {i : ℕ} {unit : U} {w : Worker U} (hw : s.pool.workers[i]? = some (.busy unit))
      (hnext : w = .loopHead ∨ w = .exited) {sent : Bool} : Moves s (.sendResult i sent) (s.setWorker i w) .none

theorem tryAdmit_moves (s : State U) (e : Event U) {r : State U × Effect U} (h : s.tryAdmit e.units = r) :
    Moves s e r.1 r.2 := by
  rw [State.tryAdmit] at h
  rcases hpool : s.pool.tryAcquire e.units.length with _ | pool
  · rw [hpool] at h
    subst h
    exact .reject e rfl
  · rw [hpool] at h
    subst h
    exact .enter e hpool

theorem tryAcquire_unlimited {pool : SharedWorkerPool U} (h : pool.readyCapacity = none) (count : ℕ) :
    pool.tryAcquire count = some pool := by rw [SharedWorkerPool.tryAcquire, h]

theorem checkBatch_moves (s : State U) (e : Event U) {admitted r : State U × Effect U} (hadmitted : Moves s e admitted.1 admitted.2)
    (h : s.checkBatch e.units admitted = r) : Moves s e r.1 r.2 := by
  rw [State.checkBatch] at h
  by_cases hempty : e.units.isEmpty = true
  · rw [if_pos hempty] at h
    subst h
    exact .nothing e
  rw [if_neg hempty] at h
  rcases hcap : s.pool.readyCapacity with _ | capacity
  · rw [hcap] at h
    subst h
    exact .enter e (tryAcquire_unlimited hcap _)
  · rw [hcap] at h
    dsimp only at h
    by_cases hlarge : e.units.length > capacity
    · rw [if_pos hlarge] at h
      subst h
      exact .reject e rfl
    · rw [if_neg hlarge] at h
      by_cases hmax : e.units.length > u32Max
      · rw [if_pos hmax] at h
        subst h
        exact .reject e rfl
      · rw [if_neg hmax] at h
        subst h
        exact hadmitted

theorem grant_moves (s : State U) {i : ℕ} {c : Call U} {units : List U} {r : State U × Effect U}
    (hc : s.calls[i]? = some c) (hunits : c.waitingUnits = some units) (h : s.grant i units = some r) :
    Moves s (.grant i) r.1 r.2 := by
  obtain ⟨pool, hpool, rfl⟩ := Option.map_eq_some_iff.1 h
  exact .grant hc hunits hpool

/-- **A step is a move.** -/
theorem moves_of_step {s t : State U} {e : Event U} {eff : Effect U} (h : s.step e = some (t, eff)) : Moves s e t eff := by
  cases e with
  | submit unit =>
    have h := Option.some.inj h
    rw [State.submit] at h
    rcases hcap : s.pool.readyCapacity with _ | capacity
    · rw [hcap] at h
      cases h
      exact .enter (.submit unit) (tryAcquire_unlimited hcap _)
    · rw [hcap] at h
      cases h
      exact .wait (.submit unit) rfl
  | trySubmit unit => exact tryAdmit_moves s (.trySubmit unit) (Option.some.inj h)
  | submitMany units =>
    exact checkBatch_moves s (.submitMany units) (.wait (.submitMany units) rfl) (Option.some.inj h)
  | trySubmitMany units =>
    exact checkBatch_moves s (.trySubmitMany units) (tryAdmit_moves s (.trySubmitMany units) rfl) (Option.some.inj h)
  | grant i =>
    rw [State.step] at h
    split at h
    · next hc => exact grant_moves s hc rfl h
    · next hc => exact grant_moves s hc rfl h
    · cases h
  | cancelWait i =>
    rw [State.step] at h
    split at h
    · next hc =>
      cases h
      exact .leave hc rfl (.inl rfl)
    · next hc =>
      cases h
      exact .leave hc rfl (.inr rfl)
    · cases h
  | dropCall i =>
    rw [State.step] at h
    split at h
    · next hc =>
      cases h
      exact .leave hc rfl (.inl rfl)
    · next hc =>
      cases h
      exact .leave hc rfl (.inl rfl)
    · cases h
  | push i =>
    rw [State.step] at h
    split at h
    · next hc =>
      cases h
      exact .push hc
    · cases h
  | notifyOne i waiter =>
    rw [State.step] at h
    split at h
    · next left hc =>
      obtain ⟨u, hu, heq⟩ := Option.map_eq_some_iff.1 h
      cases heq
      rcases waiter with _ | j
      · rw [State.notifyOne] at hu
        by_cases hany : s.pool.workers.any Worker.isParked = true
        · rw [if_pos hany] at hu
          cases hu
        · rw [if_neg hany] at hu
          cases hu
          refine .store hc fun w hw hparked => hany (List.any_eq_true.2 ⟨w, hw, ?_⟩)
          rw [hparked]
          rfl
      · rw [State.notifyOne] at hu
        by_cases hany : s.pool.workers[j]?.any Worker.isParked = true
        · rw [if_pos hany] at hu
          cases hu
          obtain ⟨w, hw, hparked⟩ := (Option.any_eq_true _ _).1 hany
          obtain rfl := eq_parked hparked
          exact .wake hc hw
        · rw [if_neg hany] at hu
          cases hu
    · cases h
  | cancel =>
    cases h
    exact .cancel
  | workerCancelled i =>
    rw [State.step] at h
    split at h
    all_goals first
      | (cases h; exact .exit (by assumption) (by assumption) (by simp))
      | cases h
  | pop i =>
    rw [State.step] at h
    split at h
    all_goals first
      | cases h
      | (split at h
         · cases h
           exact .popEmpty (by assumption) (by simp) (by assumption)
         · cases h
           exact .pop (by assumption) (by simp) (by assumption))
  | addPermit i =>
    rw [State.step] at h
    split at h
    · next hw =>
      cases h
      exact .addPermit hw
    · cases h
  | pollNotified i =>
    rw [State.step] at h
    split at h
    · next hw =>
      by_cases hstored : s.pool.stored = true
      · rw [if_pos hstored] at h
        cases h
        exact .consume hw hstored
      · rw [if_neg hstored] at h
        cases h
        exact .park hw (Bool.not_eq_true _ ▸ hstored)
    · cases h
  | resume i =>
    rw [State.step] at h
    split at h
    · next hw =>
      cases h
      exact .resume hw
    · cases h
  | sendResult i sent =>
    rw [State.step] at h
    split at h
    · next hw =>
      cases h
      exact .send hw (by cases sent <;> simp)
    · cases h

/-! ## Runs -/

/-- The steps of the pool, labelled with the event and its effect. -/
def Step (s : State U) (e : Event U × Effect U) (t : State U) : Prop := s.step e.1 = some (t, e.2)

/-- The run of given events. -/
def State.play (s : State U) : List (Event U) → Option (List (Event U × Effect U) × State U)
  | [] => some ([], s)
  | e :: es => (s.step e).bind fun (t, eff) => (t.play es).map fun (rest, u) => ((e, eff) :: rest, u)

/-- What is played is a run of any system that has the steps played. -/
theorem run_of_play {step : State U → Event U × Effect U → State U → Prop} : ∀ (events : List (Event U)) {s t : State U}
    {es : List (Event U × Effect U)}, s.play events = some (es, t) →
    (∀ e ∈ events, ∀ s t eff, Step s (e, eff) t → step s (e, eff) t) → Run step s es t
  | [], s, t, es, h, _ => by
    cases h
    exact .nil
  | e :: events, s, t, es, h, hsteps => by
    obtain ⟨⟨u, eff⟩, hstep, h⟩ := Option.bind_eq_some_iff.1 h
    obtain ⟨⟨rest, v⟩, hrest, h⟩ := Option.map_eq_some_iff.1 h
    cases h
    have hfirst : step s (e, eff) u := hsteps e (by simp) s u eff hstep
    exact (Run.single hfirst).append (run_of_play events hrest fun d hd => hsteps d (by simp [hd]))

end Scheduler
