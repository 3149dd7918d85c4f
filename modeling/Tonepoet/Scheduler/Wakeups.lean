import Tonepoet.Scheduler.Conservation

/-!
# When a worker sleeps while work is ready

Each push owes one `notify_one` per unit, and each notification makes one worker pop again, unless it is
stored on top of one that is stored already. Such a notification is lost; that matters when two workers
have found the queue empty and have not registered yet, since only one of them will consume the stored
notification and the other parks.
-/

namespace Scheduler

open Transition

variable {U : Type}

namespace Worker

def idleCount : Worker U → ℕ
  | .idle => 1
  | _ => 0

def parkedCount : Worker U → ℕ
  | .parked => 1
  | _ => 0

/-- Woken, or about to be: the worker pops next. -/
def wakingCount : Worker U → ℕ
  | .awake | .notified => 1
  | _ => 0

end Worker

namespace State

/-- The workers that found the queue empty and have not registered yet. -/
def idle (s : State U) : ℕ := (s.pool.workers.map Worker.idleCount).sum

def parked (s : State U) : ℕ := (s.pool.workers.map Worker.parkedCount).sum

/-- The notifications that are stored, in delivery or owed, and the woken workers. -/
def wakeups (s : State U) : ℕ :=
  (s.pool.workers.map Worker.wakingCount).sum + (s.calls.map Call.owed).sum + s.pool.stored.toNat

/-- Work is ready, a worker is parked, and nothing is on its way to wake one. -/
def Stalled (s : State U) : Prop :=
  s.pool.queue ≠ [] ∧ Worker.parked ∈ s.pool.workers ∧ Worker.awake ∉ s.pool.workers ∧
    Worker.notified ∉ s.pool.workers ∧ s.pool.stored = false ∧ ∀ c ∈ s.calls, c.owed = 0

instance [DecidableEq U] (s : State U) : Decidable s.Stalled := inferInstanceAs (Decidable (_ ∧ _ ∧ _ ∧ _ ∧ _ ∧ _))

end State

/-- A notification is lost while two workers are on their way to register and the ready units need every
    wakeup there is. -/
def Collapses (s : State U) (e : Event U) : Prop :=
  (∃ i, e = .notifyOne i none) ∧ s.pool.stored = true ∧ 2 ≤ s.idle ∧ s.wakeups ≤ s.pool.queue.length

/-- A step of a pool that is not cancelled, in which no such notification is lost. -/
def UncollapsedStep (s : State U) (e : Event U × Effect U) (t : State U) : Prop :=
  Step s e t ∧ e.1 ≠ .cancel ∧ ¬ Collapses s e.1

/-! ## The invariant -/

/-- Where a worker may park, every ready unit has a wakeup. -/
structure CoveredBy (queue idle parked wakeups stored : ℕ) : Prop where
  none_parked : stored = 1 → parked = 0
  parked : 1 ≤ parked → queue ≤ wakeups
  last : 1 ≤ idle → stored = 0 → queue ≤ wakeups
  two : 2 ≤ idle → queue ≤ wakeups

structure Covered (s : State U) : Prop where
  uncancelled : s.pool.cancelled = false
  counts : CoveredBy s.pool.queue.length s.idle s.parked s.wakeups s.pool.stored.toNat

variable {s t : State U}

theorem sum_map_eq_zero {α : Type} {f : α → ℕ} {xs : List α} (h : ∀ x ∈ xs, f x = 0) : (xs.map f).sum = 0 := by
  rw [List.map_congr_left h, List.map_const', List.sum_replicate_nat, Nat.mul_zero]

theorem covered_init (workerCount : ℕ) (readyCapacity : Option ℕ) :
    Covered (State.init workerCount readyCapacity : State U) := by
  have hqueue : (State.init workerCount readyCapacity : State U).pool.queue.length = 0 := rfl
  have hparked : (State.init workerCount readyCapacity : State U).parked = 0 := by
    refine sum_map_eq_zero fun w hw => ?_
    rw [(List.mem_replicate.1 hw).2]
    rfl
  refine ⟨rfl, ?_⟩
  rw [hqueue, hparked]
  constructor <;> intros <;> omega

/-- A step that leaves the workers, the queue, the stored notification and what is owed alone. -/
theorem Covered.congr (h : Covered s) (hcancelled : t.pool.cancelled = s.pool.cancelled)
    (hworkers : t.pool.workers = s.pool.workers) (hqueue : t.pool.queue = s.pool.queue)
    (hstored : t.pool.stored = s.pool.stored) (howed : (t.calls.map Call.owed).sum = (s.calls.map Call.owed).sum) :
    Covered t := by
  refine ⟨hcancelled.trans h.uncancelled, ?_⟩
  rw [State.idle, State.parked, State.wakeups, hworkers, hqueue, hstored, howed]
  exact h.counts

/-- The counts after one worker has moved, with a new queue and a new stored notification. -/
theorem Covered.setWorker (h : Covered s) {i : ℕ} {w : Worker U} (hw : s.pool.workers[i]? = some w) (w' : Worker U)
    (queue : List U) (stored : Bool) {permits : ℕ}
    (hcounts : ∀ idle parked waking, idle + w.idleCount = s.idle + w'.idleCount →
      parked + w.parkedCount = s.parked + w'.parkedCount → waking + w.wakingCount + s.pool.stored.toNat =
        s.wakeups + w'.wakingCount → CoveredBy queue.length idle parked (waking + stored.toNat) stored.toNat) :
    Covered (State.setWorker { s with pool := { s.pool with queue, stored, permits } } i w') := by
  refine ⟨h.uncancelled, ?_⟩
  have hidle := sum_map_set Worker.idleCount w' hw
  have hparked := sum_map_set Worker.parkedCount w' hw
  have hwaking := sum_map_set Worker.wakingCount w' hw
  rw [State.idle, State.parked, State.wakeups, State.setWorker_workers, State.setWorker_queue, State.setWorker_stored]
  refine hcounts _ _ _ hidle hparked ?_
  rw [State.setWorker_calls, State.wakeups]
  dsimp only
  omega

/-- A call has moved, and no worker. -/
theorem Covered.setCall (h : Covered s) {i : ℕ} {c : Call U} (hc : s.calls[i]? = some c) (c' : Call U) {queue : List U}
    {stored : Bool} (hcounts : ∀ wakeups, wakeups + c.owed + s.pool.stored.toNat = s.wakeups + c'.owed →
      CoveredBy queue.length s.idle s.parked (wakeups + stored.toNat) stored.toNat) :
    Covered (State.setCall { s with pool := { s.pool with queue, stored } } i c') := by
  refine ⟨h.uncancelled, ?_⟩
  have howed := sum_map_set Call.owed c' hc
  rw [State.wakeups, State.setCall_calls, State.setCall_pool]
  refine hcounts _ ?_
  rw [State.wakeups]
  dsimp only
  omega

/-- The first worker found the queue empty: there is nothing to cover. -/
theorem coveredBy_empty {idle parked wakeups stored : ℕ} (h : stored = 1 → parked = 0) :
    CoveredBy 0 idle parked wakeups stored := ⟨h, fun _ => Nat.zero_le _, fun _ _ => Nat.zero_le _, fun _ => Nat.zero_le _⟩

/-- **An uncollapsed step keeps every ready unit covered.** -/
theorem Covered.step {e : Event U × Effect U} (h : Covered s) (hstep : UncollapsedStep s e t) : Covered t := by
  obtain ⟨hstep, hcancel, hcollapse⟩ := hstep
  obtain ⟨hnone, hparked, hlast, htwo⟩ := h.counts
  have hbit := Bool.toNat_le s.pool.stored
  have hmoves := moves_of_step hstep
  obtain ⟨e, eff⟩ := e
  dsimp only at hmoves hcancel hcollapse
  cases hmoves with
  | nothing | reject => exact h
  | wait _ hc =>
    refine h.congr rfl rfl rfl rfl ?_
    rw [State.startCall_calls, sum_map_concat, owed_of_waiting hc, Nat.add_zero]
  | enter e hpool =>
    obtain ⟨permits, rfl⟩ := tryAcquire_frame hpool
    refine h.congr rfl rfl rfl rfl ?_
    rw [State.startCall_calls, sum_map_concat, Call.owed, Nat.add_zero]
    exact fun _ => nofun
  | @grant i c units pool hc hunits hpool =>
    obtain ⟨permits, rfl⟩ := tryAcquire_frame hpool
    refine h.congr rfl rfl rfl rfl ?_
    have howed := sum_map_set Call.owed (.admitted units) hc
    rw [owed_of_waiting hunits] at howed
    exact howed
  | leave hc hunits =>
    refine h.congr rfl rfl rfl rfl ?_
    have howed := sum_map_set Call.owed .done hc
    rw [owed_of_waiting hunits] at howed
    exact howed
  | push hc =>
    refine h.setCall hc _ fun wakeups hwakeups => ?_
    simp only [Call.owed] at hwakeups
    rw [List.length_append]
    constructor <;> intros <;> omega
  | @wake i j left hc hj =>
    have hidle := sum_map_set Worker.idleCount .notified hj
    have hpark := sum_map_set Worker.parkedCount .notified hj
    have hwaking := sum_map_set Worker.wakingCount .notified hj
    have howed := sum_map_set Call.owed (.notifying left) hc
    simp only [Worker.idleCount, Worker.parkedCount, Worker.wakingCount, Call.owed] at hidle hpark hwaking howed
    refine ⟨h.uncancelled, ?_⟩
    rw [State.idle, State.parked, State.wakeups] at *
    simp only [State.setCall_pool, State.setCall_calls, State.setWorker_workers, State.setWorker_queue,
      State.setWorker_stored, State.setWorker_calls]
    constructor <;> intros <;> omega
  | @store i left hc hnotparked =>
    have hzero : s.parked = 0 := sum_map_eq_zero fun w hw => by
      cases w <;> first | rfl | exact absurd rfl (hnotparked _ hw)
    have hfew : s.pool.stored = true → 2 ≤ s.idle → s.pool.queue.length < s.wakeups := by
      intro hstored hmany
      by_contra hneeded
      exact hcollapse ⟨⟨i, rfl⟩, hstored, hmany, by omega⟩
    refine h.setCall hc _ fun wakeups hwakeups => ?_
    rw [Call.owed, Call.owed] at hwakeups
    rcases hstored : s.pool.stored with _ | _
    · rw [hstored, Bool.toNat_false] at hwakeups hlast
      rw [Bool.toNat_true]
      constructor <;> intros <;> omega
    · have hfew := hfew hstored
      rw [Bool.toNat_true]
      constructor <;> intros <;> omega
  | cancel => exact absurd rfl hcancel
  | exit _ hcancelled =>
    rw [h.uncancelled] at hcancelled
    cases hcancelled
  | @popEmpty i w hw hphase hqueue =>
    refine h.setWorker hw .idle s.pool.queue s.pool.stored fun idle parked waking hidle hpark hwaking => ?_
    rw [hqueue]
    refine coveredBy_empty fun hstored => ?_
    rw [hnone hstored] at hpark
    rcases hphase with rfl | rfl
    all_goals
      simp only [Worker.parkedCount] at hpark
      omega
  | @pop i w unit queue hw hphase hqueue =>
    refine h.setWorker hw _ queue s.pool.stored fun idle parked waking hidle hpark hwaking => ?_
    rw [hqueue, List.length_cons] at hparked hlast htwo
    rcases hphase with rfl | rfl
    all_goals
      simp only [Worker.idleCount, Worker.parkedCount, Worker.wakingCount] at hidle hpark hwaking
      constructor <;> intros <;> omega
  | addPermit hw =>
    obtain ⟨permits, hpool⟩ := addPermit_frame s.pool
    rw [hpool]
    refine h.setWorker hw _ s.pool.queue s.pool.stored fun idle parked waking hidle hpark hwaking => ?_
    simp only [Worker.idleCount, Worker.parkedCount, Worker.wakingCount] at hidle hpark hwaking
    constructor <;> intros <;> omega
  | consume hw hstored =>
    refine h.setWorker hw .awake s.pool.queue false fun idle parked waking hidle hpark hwaking => ?_
    rw [hstored, Bool.toNat_true] at hnone hlast hwaking
    simp only [Worker.idleCount, Worker.parkedCount, Worker.wakingCount] at hidle hpark hwaking
    rw [Bool.toNat_false]
    constructor <;> intros <;> omega
  | park hw hstored =>
    refine h.setWorker hw .parked s.pool.queue s.pool.stored fun idle parked waking hidle hpark hwaking => ?_
    rw [hstored, Bool.toNat_false] at hnone hlast hwaking ⊢
    simp only [Worker.idleCount, Worker.parkedCount, Worker.wakingCount] at hidle hpark hwaking
    constructor <;> intros <;> omega
  | resume hw =>
    refine h.setWorker hw .awake s.pool.queue s.pool.stored fun idle parked waking hidle hpark hwaking => ?_
    simp only [Worker.idleCount, Worker.parkedCount, Worker.wakingCount] at hidle hpark hwaking
    constructor <;> intros <;> omega
  | @send i unit w hw hnext =>
    refine h.setWorker hw w s.pool.queue s.pool.stored fun idle parked waking hidle hpark hwaking => ?_
    rcases hnext with rfl | rfl
    all_goals
      simp only [Worker.idleCount, Worker.parkedCount, Worker.wakingCount] at hidle hpark hwaking
      constructor <;> intros <;> omega

/-! ## Runs -/

theorem Covered.not_stalled (h : Covered s) : ¬ s.Stalled := by
  rintro ⟨hqueue, hparked, hawake, hnotified, hstored, howed⟩
  have hone : 1 ≤ s.parked := by
    obtain ⟨i, hi⟩ := List.mem_iff_getElem?.1 hparked
    exact le_sum_map (f := Worker.parkedCount) hi
  have hwaking : (s.pool.workers.map Worker.wakingCount).sum = 0 := by
    refine sum_map_eq_zero fun w hw => ?_
    cases w <;> first | rfl | exact absurd hw hawake | exact absurd hw hnotified
  have hnone : s.wakeups = 0 := by rw [State.wakeups, hwaking, sum_map_eq_zero howed, hstored, Bool.toNat_false]
  have hlen := h.counts.parked hone
  rw [hnone] at hlen
  exact hqueue (List.eq_nil_of_length_eq_zero (Nat.le_zero.1 hlen))

/-- **No worker sleeps while work is ready**, in a run where no notification is lost while two workers are
    between an empty pop and their registration and no other wakeup is left for some ready unit. -/
theorem pool_never_stalls (workerCount : ℕ) (readyCapacity : Option ℕ) (es : List (Event U × Effect U)) (s : State U)
    (h : Run UncollapsedStep (State.init workerCount readyCapacity) es s) : ¬ s.Stalled :=
  (h.invariant (fun _ t => Covered t) (covered_init _ _) fun _ _ _ _ hI hstep => hI.step hstep).not_stalled

/-- A worker parks, a unit is submitted, the worker is notified. -/
theorem pool_never_stalls_one_worker : ∃ es s, Run UncollapsedStep (State.init 1 none : State ℕ) es s ∧
    s.pool.queue = [1] ∧ ¬ s.Stalled := by
  have hplay : ((State.init 1 none : State ℕ).play
      [.pop 0, .pollNotified 0, .submit 1, .push 0, .notifyOne 0 (some 0)]).isSome = true := rfl
  obtain ⟨⟨es, s⟩, hs⟩ := Option.isSome_iff_exists.1 hplay
  have hrun : Run UncollapsedStep (State.init 1 none) es s := by
    refine run_of_play _ hs fun e he u v eff hstep => ⟨hstep, ?_, ?_⟩
    · rintro rfl
      simp at he
    · rintro ⟨⟨i, hi⟩, -⟩
      dsimp only at hi
      subst hi
      simp at he
  refine ⟨es, s, hrun, ?_, pool_never_stalls 1 none es s hrun⟩
  cases hs
  rfl

/-- Two workers find the queue empty, two units are submitted, and the second notification is lost: one
    worker takes the first unit and the other parks beside the second. -/
theorem pool_stalls : ∃ es s, Run (fun s e t => Step s e t ∧ e.1 ≠ .cancel) (State.init 2 none : State ℕ) es s ∧
    s.Stalled := by
  have hplay : ((State.init 2 none : State ℕ).play
      [.pop 0, .pop 1, .submit 1, .push 0, .notifyOne 0 none, .submit 2, .push 1, .notifyOne 1 none,
        .pollNotified 0, .pollNotified 1, .pop 0]).isSome = true := rfl
  obtain ⟨⟨es, s⟩, hs⟩ := Option.isSome_iff_exists.1 hplay
  refine ⟨es, s, run_of_play _ hs fun e he u v eff hstep => ⟨hstep, ?_⟩, ?_⟩
  · rintro rfl
    simp at he
  · cases hs
    decide

end Scheduler
