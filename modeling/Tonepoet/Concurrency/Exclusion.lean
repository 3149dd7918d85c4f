import Tonepoet.Concurrency.Leases

/-!
# Mutation claims exclude each other

A descriptor counts while an owner lives or while its lifecycle reserves it for recovery. Between the
steps of an admission a descriptor can stop counting but never start, so what the scan has passed stays
passed: when the admission publishes, its claims are compatible with every descriptor that counts.
-/

namespace Concurrency

open Transition PathClaim PathRegion

/-! ## Conflicts are symmetric -/

theorem SameFile.symm {a b : PathClaim} (h : a.SameFile b) : b.SameFile a :=
  ⟨h.2.1 ▸ h.1, h.2.1.symm, h.2.2.2 ▸ h.2.2.1, h.2.2.2.symm⟩

theorem Meets.symm {a b : PathClaim} (h : a.Meets b) : b.Meets a := by
  rcases h with hfile | hkey | ⟨ha, hb, hspelled⟩ | htouch | htouch
  · exact .inl (SameFile.symm hfile)
  · exact .inr (.inl hkey.symm)
  · exact .inr (.inr (.inl ⟨hb, ha, hspelled.symm⟩))
  · exact .inr (.inr (.inr (.inr htouch)))
  · exact .inr (.inr (.inr (.inl htouch)))

theorem conflictsWith_comm (a b : PathClaim) : a.conflictsWith b = b.conflictsWith a := by
  rw [Bool.eq_iff_iff, conflictsWith_iff, conflictsWith_iff]
  exact and_congr (not_congr and_comm) ⟨Meets.symm, Meets.symm⟩

/-- No claim of one conflicts with a claim of the other, or they belong together. -/
def Compatible (x y : Claimant) : Prop :=
  (∀ a ∈ x.claims, ∀ b ∈ y.claims, a.conflictsWith b = false) ∨ sameExecutionLifecycle x.family y.family = true ∨
    ∃ group, x.coordinationGroup = some group ∧ y.coordinationGroup = some group

theorem sameExecutionLifecycle_comm (x y : LeaseFamily) : sameExecutionLifecycle x y = sameExecutionLifecycle y x := by
  rw [sameExecutionLifecycle, sameExecutionLifecycle, Bool.and_comm x.isExecution,
    Bool.beq_eq_decide_eq, Bool.beq_eq_decide_eq]
  simp only [eq_comm]

theorem Compatible.symm {x y : Claimant} (h : Compatible x y) : Compatible y x := by
  rcases h with h | h | ⟨group, hx, hy⟩
  · exact .inl fun a ha b hb => by rw [conflictsWith_comm, h b hb a ha]
  · exact .inr (.inl (by rw [sameExecutionLifecycle_comm, h]))
  · exact .inr (.inr ⟨group, hy, hx⟩)

theorem compatible_of_exempt {x y : Claimant} (h : x.exempt y = true) : Compatible x y := by
  rw [Claimant.exempt, Bool.or_eq_true, Option.any_eq_true] at h
  rcases h with h | ⟨group, hx, hy⟩
  · exact .inr (.inl h)
  · exact .inr (.inr ⟨group, hx, by simpa using hy⟩)

theorem compatible_of_firstConflict {x y : Claimant} (h : (firstConflict x.claims y.claims).isSome ≠ true) :
    Compatible x y := by
  refine .inl fun a ha b hb => ?_
  rw [ne_eq, Option.isSome_iff_ne_none, not_not, firstConflict, List.findSome?_eq_none_iff] at h
  have hnone := List.findSome?_eq_none_iff.1 (h a ha) b hb
  by_contra hconflict
  rw [Bool.not_eq_false] at hconflict
  rw [if_pos hconflict] at hnone
  cases hnone

theorem compatible_of_claims_nil {x y : Claimant} (h : y.claims = []) : Compatible x y :=
  .inl fun a _ b hb => by rw [h] at hb; cases hb

/-! ## The invariant -/

/-- Live under an owner, or reserved for recovery. -/
def Descriptor.Reserves (d : Descriptor) : Prop :=
  (∃ process, d.lock = .owned process) ∨ classifyAvailability d.claimant.family false = .recoveryReserved

structure Exclusive (s : Registry) : Prop where
  nodup : (s.published.map Descriptor.id).Nodup
  fresh : ∀ d ∈ s.published, d.id < s.nextId
  claimless : ∀ d ∈ s.published, d.claimant.family.carriesPathClaims = false → d.claimant.claims = []
  exclusive : s.published.Pairwise fun p q => p.Reserves → q.Reserves → Compatible p.claimant q.claimant
  scanned : ∀ a, s.admission = some a → ∀ d ∈ s.published, d.Reserves → d.claimant.family.carriesPathClaims = true →
    d.id ∈ a.remaining ∨ Compatible a.requester d.claimant

/-- The steps, labelled with the event and its outcome. -/
def Step (s : Registry) (e : Event × Outcome) (t : Registry) : Prop := s.step e.1 = some (t, e.2)

variable {s t : Registry}

/-- Nothing is published and nothing starts to count. -/
structure Shrinks (s t : Registry) : Prop where
  nextId : s.nextId ≤ t.nextId
  published : ∃ (keep : Descriptor → Bool) (change : Descriptor → Descriptor),
    t.published = (s.published.filter keep).map change ∧
      ∀ d ∈ s.published, (change d).id = d.id ∧ (change d).claimant = d.claimant ∧ ((change d).Reserves → d.Reserves)

theorem Shrinks.mem (h : Shrinks s t) {d : Descriptor} (hd : d ∈ t.published) :
    ∃ d' ∈ s.published, d'.id = d.id ∧ d'.claimant = d.claimant ∧ (d.Reserves → d'.Reserves) := by
  obtain ⟨keep, change, heq, hchange⟩ := h.published
  rw [heq] at hd
  obtain ⟨d', hd', rfl⟩ := List.mem_map.1 hd
  have hmem := (List.mem_filter.1 hd').1
  obtain ⟨hid, hclaimant, hreserves⟩ := hchange d' hmem
  exact ⟨d', hmem, hid.symm, hclaimant.symm, hreserves⟩

/-- Shrinking keeps everything but the scan's progress, which a step has to account for. -/
theorem Exclusive.shrink (h : Exclusive s) (hs : Shrinks s t)
    (hscanned : ∀ a, t.admission = some a → ∀ d ∈ t.published, d.Reserves → d.claimant.family.carriesPathClaims = true →
      d.id ∈ a.remaining ∨ Compatible a.requester d.claimant) : Exclusive t := by
  refine ⟨?_, fun d hd => ?_, fun d hd => ?_, ?_, hscanned⟩
  · obtain ⟨keep, change, heq, hchange⟩ := hs.published
    have hids : (t.published.map Descriptor.id) = (s.published.filter keep).map Descriptor.id := by
      rw [heq, List.map_map]
      exact List.map_congr_left fun d hd => (hchange d (List.mem_filter.1 hd).1).1
    rw [hids]
    exact h.nodup.sublist (List.filter_sublist.map _)
  · obtain ⟨d', hd', hid, -, -⟩ := hs.mem hd
    rw [← hid]
    exact (h.fresh d' hd').trans_le hs.nextId
  · obtain ⟨d', hd', -, hclaimant, -⟩ := hs.mem hd
    rw [← hclaimant]
    exact h.claimless d' hd'
  · obtain ⟨keep, change, heq, hchange⟩ := hs.published
    rw [heq, List.pairwise_map]
    refine ((h.exclusive.sublist List.filter_sublist).imp_of_mem ?_)
    intro p q hp hq hpq hrp hrq
    obtain ⟨-, hcp, hresp⟩ := hchange p (List.mem_filter.1 hp).1
    obtain ⟨-, hcq, hresq⟩ := hchange q (List.mem_filter.1 hq).1
    rw [hcp, hcq]
    exact hpq (hresp hrp) (hresq hrq)

/-- The scan's progress while an admission only waits. -/
theorem Exclusive.scanned_of_shrinks (h : Exclusive s) (hs : Shrinks s t) (hadmission : t.admission = s.admission) :
    ∀ a, t.admission = some a → ∀ d ∈ t.published, d.Reserves → d.claimant.family.carriesPathClaims = true →
      d.id ∈ a.remaining ∨ Compatible a.requester d.claimant := by
  intro a ha d hd hreserves hcarries
  obtain ⟨d', hd', hid, hclaimant, hreserves'⟩ := hs.mem hd
  rw [← hid, ← hclaimant]
  exact h.scanned a (hadmission ▸ ha) d' hd' (hreserves' hreserves) (hclaimant ▸ hcarries)

theorem shrinks_remove (s : Registry) (id : Uuid) : Shrinks s (s.remove id) :=
  ⟨le_rfl, fun d => d.id != id, fun d => d, by simp [Registry.remove], fun _ _ => ⟨rfl, rfl, fun h => h⟩⟩

theorem Shrinks.admission (h : Shrinks s t) (a : Option Admission) : Shrinks s { t with admission := a } :=
  ⟨h.nextId, h.published⟩

/-- A lock that changes on descriptors that count already, or to a lock nobody owns. -/
theorem shrinks_setLock {pick : Descriptor → Bool} {lock : LockState}
    (h : ∀ d ∈ s.published, pick d = true → (∃ process, lock = .owned process) → d.Reserves) : Shrinks s (s.setLock pick lock) := by
  refine ⟨le_rfl, fun _ => true, fun d => if pick d then { d with lock } else d, by simp [Registry.setLock], fun d hd => ?_⟩
  by_cases hpick : pick d = true
  · simp only [if_pos hpick]
    refine ⟨trivial, trivial, fun hreserves => ?_⟩
    rcases hreserves with howned | hreserved
    · exact h d hd hpick howned
    · exact .inr hreserved
  · simp only [if_neg hpick]
    exact ⟨trivial, trivial, fun h => h⟩

/-! ## Finding a descriptor -/

theorem find_mem {id : Uuid} {d : Descriptor} (h : s.find id = some d) : d ∈ s.published ∧ d.id = id := by
  rw [Registry.find] at h
  exact ⟨List.mem_of_find?_eq_some h, by simpa using List.find?_some h⟩

theorem find_none {id : Uuid} (h : s.find id = none) : ∀ d ∈ s.published, d.id ≠ id := by
  intro d hd hid
  rw [Registry.find, List.find?_eq_none] at h
  exact h d hd (by simp [hid])

theorem Exclusive.eq_of_id (h : Exclusive s) {d d' : Descriptor} (hd : d ∈ s.published) (hd' : d' ∈ s.published)
    (hid : d.id = d'.id) : d = d' := List.inj_on_of_nodup_map h.nodup hd hd' hid

/-! ## One step -/

theorem createWhileRegistryLocked_eq {requester : Claimant} {process : ℕ} (h : s.createWhileRegistryLocked requester process = some t) :
    (requester.family.carriesPathClaims = false → requester.claims = []) ∧
      t = { s with published := s.published ++ [⟨s.nextId, requester, .owned process⟩], nextId := s.nextId + 1 } := by
  rw [Registry.createWhileRegistryLocked] at h
  split_ifs at h with hcarries hsingular
  refine ⟨fun hno => ?_, (Option.some.inj h).symm⟩
  simpa [hno] using hcarries

/-- A descriptor that is compatible with all that count is added. -/
theorem Exclusive.create (h : Exclusive s) {requester : Claimant} {process : ℕ}
    (hcreate : s.createWhileRegistryLocked requester process = some t)
    (hcompatible : ∀ d ∈ s.published, d.Reserves → Compatible d.claimant requester) :
    Exclusive { t with admission := none } := by
  obtain ⟨hclaimless, rfl⟩ := createWhileRegistryLocked_eq hcreate
  refine ⟨?_, ?_, ?_, ?_, nofun⟩
  · rw [List.map_append, List.nodup_append]
    refine ⟨h.nodup, List.nodup_singleton _, ?_⟩
    intro i hi j hj
    obtain ⟨d, hd, rfl⟩ := List.mem_map.1 hi
    obtain rfl : j = s.nextId := by simpa using hj
    exact (h.fresh d hd).ne
  · intro d hd
    rcases List.mem_append.1 hd with hd | hd
    · exact (h.fresh d hd).trans (Nat.lt_succ_self _)
    · rw [List.mem_singleton.1 hd]
      exact Nat.lt_succ_self _
  · intro d hd
    rcases List.mem_append.1 hd with hd | hd
    · exact h.claimless d hd
    · rw [List.mem_singleton.1 hd]
      exact hclaimless
  · rw [List.pairwise_append]
    refine ⟨h.exclusive, List.pairwise_singleton _ _, ?_⟩
    intro p hp q hq hrp _
    rw [List.mem_singleton.1 hq]
    exact hcompatible p hp hrp

/-- All that carry claims are still to be looked at when an admission begins. -/
theorem Exclusive.begin (h : Exclusive s) (requester : Claimant) (process : ℕ) :
    Exclusive { s with admission := some ⟨requester, process, s.claimDescriptorPaths⟩ } := by
  refine ⟨h.nodup, h.fresh, h.claimless, h.exclusive, ?_⟩
  intro a ha d hd _ hcarries
  obtain rfl := Option.some.inj ha
  exact .inl (List.mem_map_of_mem (List.mem_filter.2 ⟨hd, hcarries⟩))

/-- An ephemeral descriptor whose lock is free does not count. -/
theorem not_reserves_of_reclaimable {d : Descriptor} (h : d.availability = .reclaimableEphemeral) : ¬ d.Reserves := by
  rw [Descriptor.availability, classifyAvailability] at h
  split_ifs at h with hcontended hreserved
  rintro (⟨process, howned⟩ | hrecovery)
  · exact hcontended (by rw [Descriptor.contended, howned]; rfl)
  · rw [classifyAvailability, if_neg Bool.false_ne_true, if_neg hreserved] at hrecovery
    cases hrecovery

/-- What the scan does to the registry, and what it has learned of the descriptor it leaves behind. -/
theorem scanDescriptor_cases (s : Registry) (a : Admission) (id : Uuid) (rest : List Uuid) (removable : Bool) :
    (s.scanDescriptor a id rest removable = ({ s with admission := some { a with remaining := rest } }, .none) ∧
      ∀ d, s.find id = some d → d.Reserves → Compatible a.requester d.claimant) ∨
    ((removable = true ∧ ∃ d, s.find id = some d ∧ d.availability = .reclaimableEphemeral) ∧
      s.scanDescriptor a id rest removable = ({ s.remove id with admission := some { a with remaining := rest } }, .none)) ∨
    s.scanDescriptor a id rest removable = ({ s with admission := none }, .refused) := by
  rw [Registry.scanDescriptor]
  rcases hfind : s.find id with - | d
  · exact .inl ⟨rfl, nofun⟩
  by_cases hexempt : a.requester.exempt d.claimant = true
  · refine .inl ⟨if_pos hexempt, ?_⟩
    rintro _ ⟨⟩ _
    exact compatible_of_exempt hexempt
  by_cases hreclaimable : d.availability = .reclaimableEphemeral
  · cases removable with
    | false =>
      refine .inl ⟨by simp [hexempt, hreclaimable], ?_⟩
      rintro _ ⟨⟩ hreserves
      exact absurd hreserves (not_reserves_of_reclaimable hreclaimable)
    | true => exact .inr (.inl ⟨⟨rfl, d, rfl, hreclaimable⟩, by simp [hexempt, hreclaimable, Registry.remove]⟩)
  · by_cases hconflict : (firstConflict a.requester.claims d.claimant.claims).isSome = true
    · exact .inr (.inr (by simp only [if_neg hexempt, if_neg hreclaimable, if_pos hconflict]))
    · refine .inl ⟨by simp only [if_neg hexempt, if_neg hreclaimable, if_neg hconflict], ?_⟩
      rintro _ ⟨⟩ _
      exact compatible_of_firstConflict hconflict

/-- The scan keeps the invariant: the descriptor it passes is compatible or does not count. -/
theorem Exclusive.scan (h : Exclusive s) {a : Admission} {id : Uuid} {rest : List Uuid} (ha : s.admission = some a)
    (hremaining : a.remaining = id :: rest) (removable : Bool) : Exclusive (s.scanDescriptor a id rest removable).1 := by
  rcases scanDescriptor_cases s a id rest removable with ⟨heq, hpassed⟩ | ⟨-, heq⟩ | heq <;> rw [heq]
  · refine ⟨h.nodup, h.fresh, h.claimless, h.exclusive, ?_⟩
    intro _ ha' d hd hreserves hcarries
    obtain rfl := Option.some.inj ha'
    rcases h.scanned a ha d hd hreserves hcarries with hmem | hcompatible
    · rw [hremaining] at hmem
      rcases List.mem_cons.1 hmem with hid | hmem
      · refine .inr (hpassed d ?_ hreserves)
        rcases hfind : s.find id with - | d'
        · exact absurd hid (find_none hfind d hd)
        · obtain ⟨hd', hid'⟩ := find_mem hfind
          rw [h.eq_of_id hd hd' (hid.trans hid'.symm)]
      · exact .inl hmem
    · exact .inr hcompatible
  · refine h.shrink ((shrinks_remove s id).admission _) ?_
    intro _ ha' d hd hreserves hcarries
    obtain rfl := Option.some.inj ha'
    have hkept := List.mem_filter.1 hd
    rcases h.scanned a ha d hkept.1 hreserves hcarries with hmem | hcompatible
    · rw [hremaining] at hmem
      rcases List.mem_cons.1 hmem with hid | hmem
      · simp [hid] at hkept
      · exact .inl hmem
    · exact .inr hcompatible
  · exact ⟨h.nodup, h.fresh, h.claimless, h.exclusive, nofun⟩

/-- Every other step only shrinks what counts. -/
theorem Exclusive.of_shrinks (h : Exclusive s) (hs : Shrinks s t) (hadmission : t.admission = s.admission) : Exclusive t :=
  h.shrink hs (h.scanned_of_shrinks hs hadmission)

theorem Exclusive.find_reserves (h : Exclusive s) {id : Uuid} {d : Descriptor} (hfind : s.find id = some d) (hd : d.Reserves) :
    ∀ d' ∈ s.published, (d'.id == id) = true → d'.Reserves := by
  intro d' hd' hid
  obtain ⟨hmem, hid'⟩ := find_mem hfind
  rwa [h.eq_of_id hd' hmem ((beq_iff_eq.1 hid).trans hid'.symm)]

/-- **Every step keeps the exclusion of the descriptors that count.** -/
theorem Exclusive.step {e : Event × Outcome} (h : Exclusive s) (hstep : Step s e t) : Exclusive t := by
  obtain ⟨event, outcome⟩ := e
  rw [Step] at hstep
  cases event with
  | begin requester process =>
    rcases hadmission : s.admission with - | a
    · simp only [Registry.step, hadmission, Option.some.injEq, Prod.mk.injEq] at hstep
      rw [← hstep.1]
      exact h.begin requester process
    · simp [Registry.step, hadmission] at hstep
  | scan removable =>
    rcases hadmission : s.admission with - | a
    · simp [Registry.step, hadmission] at hstep
    rcases hremaining : a.remaining with - | ⟨id, rest⟩
    · simp [Registry.step, hadmission, hremaining] at hstep
    · simp only [Registry.step, hadmission, hremaining, Option.some.injEq] at hstep
      have hkept := h.scan hadmission hremaining removable
      rwa [hstep] at hkept
  | publish =>
    rcases hadmission : s.admission with - | a
    · simp [Registry.step, hadmission] at hstep
    rcases hremaining : a.remaining with - | ⟨id, rest⟩
    · rcases hcreate : s.createWhileRegistryLocked a.requester a.process with - | t'
      · simp only [Registry.step, hadmission, hremaining, hcreate, Option.some.injEq, Prod.mk.injEq] at hstep
        rw [← hstep.1]
        exact ⟨h.nodup, h.fresh, h.claimless, h.exclusive, nofun⟩
      · simp only [Registry.step, hadmission, hremaining, hcreate, Option.some.injEq, Prod.mk.injEq] at hstep
        rw [← hstep.1]
        refine h.create hcreate fun d hd hreserves => ?_
        cases hcarries : d.claimant.family.carriesPathClaims with
        | false => exact (compatible_of_claims_nil (h.claimless d hd hcarries)).symm
        | true =>
          rcases h.scanned a hadmission d hd hreserves hcarries with hmem | hcompatible
          · rw [hremaining] at hmem
            cases hmem
          · exact hcompatible.symm
    · simp [Registry.step, hadmission, hremaining] at hstep
  | abort =>
    rcases hadmission : s.admission with - | a
    · simp [Registry.step, hadmission] at hstep
    · simp only [Registry.step, hadmission, Option.some.injEq, Prod.mk.injEq] at hstep
      rw [← hstep.1]
      exact ⟨h.nodup, h.fresh, h.claimless, h.exclusive, nofun⟩
  | create family process =>
    rcases hadmission : s.admission with - | a
    · rcases hcreate : s.createWhileRegistryLocked ⟨family, [], none⟩ process with - | t'
      · simp [Registry.step, hadmission, hcreate] at hstep
      · simp only [Registry.step, hadmission, hcreate, Option.map_some, Option.some.injEq, Prod.mk.injEq] at hstep
        have hkept := h.create hcreate fun d _ _ => compatible_of_claims_nil rfl
        obtain ⟨-, hcreated⟩ := createWhileRegistryLocked_eq hcreate
        rw [← hstep.1]
        rwa [show { t' with admission := none } = t' by rw [hcreated]; exact congrArg (Registry.mk _ · _) hadmission.symm] at hkept
    · simp [Registry.step, hadmission] at hstep
  | retire id =>
    rw [Registry.step] at hstep
    split at hstep
    · rw [Option.some.injEq, Prod.mk.injEq] at hstep
      rw [← hstep.1]
      exact h.of_shrinks (shrinks_remove s id) rfl
    · cases hstep
  | close id =>
    rw [Registry.step] at hstep
    split at hstep
    · rw [Option.some.injEq, Prod.mk.injEq] at hstep
      rw [← hstep.1]
      exact h.of_shrinks (shrinks_setLock nofun) rfl
    · cases hstep
  | handOff id process =>
    rw [Registry.step] at hstep
    split at hstep
    next hfind =>
      rw [Option.some.injEq, Prod.mk.injEq] at hstep
      rw [← hstep.1]
      exact h.of_shrinks (shrinks_setLock fun d hd hid _ => h.find_reserves hfind (.inl ⟨_, rfl⟩) d hd hid) rfl
    · cases hstep
  | die process =>
    simp only [Registry.step, Option.some.injEq, Prod.mk.injEq] at hstep
    rw [← hstep.1]
    exact h.of_shrinks (shrinks_setLock nofun) rfl
  | recover id family process =>
    rw [Registry.step] at hstep
    split at hstep
    next hadmission hfind =>
      split_ifs at hstep with hfamily
      rw [Option.some.injEq, Prod.mk.injEq] at hstep
      rw [← hstep.1]
      -- the lifecycle is reserved already, so taking its lock changes nothing for the others
      refine h.of_shrinks (shrinks_setLock fun d hd hid _ => h.find_reserves hfind (.inr ?_) d hd hid) rfl
      obtain ⟨rfl, hreserved⟩ := hfamily
      rw [classifyAvailability, if_neg Bool.false_ne_true, if_pos hreserved]
    · cases hstep
  | retireLifecycle id =>
    rw [Registry.step] at hstep
    split at hstep
    · rw [Option.some.injEq, Prod.mk.injEq] at hstep
      rw [← hstep.1]
      exact h.of_shrinks (shrinks_remove s id) rfl
    · cases hstep
  | probe id =>
    rw [Registry.step] at hstep
    split at hstep
    · rw [Option.some.injEq, Prod.mk.injEq] at hstep
      rw [← hstep.1]
      exact h.of_shrinks (shrinks_setLock nofun) rfl
    · cases hstep
  | unprobe id =>
    rw [Registry.step] at hstep
    split at hstep
    · rw [Option.some.injEq, Prod.mk.injEq] at hstep
      rw [← hstep.1]
      exact h.of_shrinks (shrinks_setLock nofun) rfl
    · cases hstep

/-! ## What an acquisition that fails has done -/

/-- Published before and after, with the same claims. -/
def StillIn (d : Descriptor) (s : Registry) : Prop := ∃ d' ∈ s.published, d'.id = d.id ∧ d'.claimant = d.claimant

theorem StillIn.trans {d d' : Descriptor} (hid : d'.id = d.id) (hclaimant : d'.claimant = d.claimant) (h : StillIn d' s) :
    StillIn d s := by
  obtain ⟨d'', hd'', hid', hclaimant'⟩ := h
  exact ⟨d'', hd'', hid'.trans hid, hclaimant'.trans hclaimant⟩

theorem stillIn_of_mem {d : Descriptor} (h : d ∈ s.published) : StillIn d s := ⟨d, h, rfl, rfl⟩

theorem stillIn_remove {d : Descriptor} {id : Uuid} (h : d ∈ s.published) (hid : d.id ≠ id) : StillIn d (s.remove id) :=
  ⟨d, List.mem_filter.2 ⟨h, by simpa using hid⟩, rfl, rfl⟩

theorem stillIn_setLock {d : Descriptor} (h : d ∈ s.published) (pick : Descriptor → Bool) (lock : LockState) :
    StillIn d (s.setLock pick lock) := by
  refine ⟨_, List.mem_map_of_mem h, ?_⟩
  by_cases hpick : pick d = true
  · rw [if_pos hpick]
    exact ⟨rfl, rfl⟩
  · rw [if_neg hpick]
    exact ⟨rfl, rfl⟩

/-- One step while an acquisition runs: nothing is published, and what goes is dropped by its owner or is an
    ephemeral descriptor without one. -/
structure Accounts (s : Registry) (e : Event × Outcome) (t : Registry) : Prop where
  still : ∀ d ∈ t.published, StillIn d s
  gone : ∀ d ∈ s.published, StillIn d t ∨ e.1 = .retire d.id ∨ e = (.scan true, .none) ∧ d.availability = .reclaimableEphemeral

theorem accounts_admission (s : Registry) (a : Option Admission) (e : Event × Outcome) : Accounts s e { s with admission := a } :=
  ⟨fun _ hd => stillIn_of_mem hd, fun _ hd => .inl (stillIn_of_mem hd)⟩

theorem accounts_setLock (s : Registry) (pick : Descriptor → Bool) (lock : LockState) (e : Event × Outcome) :
    Accounts s e (s.setLock pick lock) := by
  refine ⟨fun d hd => ?_, fun d hd => .inl (stillIn_setLock hd pick lock)⟩
  obtain ⟨d', hd', rfl⟩ := List.mem_map.1 hd
  by_cases hpick : pick d' = true
  · rw [if_pos hpick]
    exact ⟨d', hd', rfl, rfl⟩
  · rw [if_neg hpick]
    exact stillIn_of_mem hd'

theorem accounts_remove {id : Uuid} {e : Event × Outcome} (a : Option Admission)
    (h : ∀ d ∈ s.published, d.id = id → e.1 = .retire d.id ∨ e = (.scan true, .none) ∧ d.availability = .reclaimableEphemeral) :
    Accounts s e { s.remove id with admission := a } := by
  refine ⟨fun d hd => stillIn_of_mem (List.mem_filter.1 hd).1, fun d hd => ?_⟩
  by_cases hid : d.id = id
  · exact .inr (h d hd hid)
  · exact .inl (stillIn_remove hd hid)

/-- The steps of a registry that an acquisition has locked: its own, and those that need no registry lock. -/
theorem accounts_of_step {e : Event × Outcome} {a : Admission} (h : Exclusive s) (hadmission : s.admission = some a)
    (hstep : Step s e t) (hacquired : ∀ id, e.2 ≠ .acquired id) :
    Accounts s e t ∧ (e.2 = .none → ∃ a', t.admission = some a') := by
  obtain ⟨event, outcome⟩ := e
  rw [Step] at hstep
  cases event with
  | begin | create | recover | retireLifecycle => simp [Registry.step, hadmission] at hstep
  | scan removable =>
    rcases hremaining : a.remaining with - | ⟨id, rest⟩
    · simp [Registry.step, hadmission, hremaining] at hstep
    simp only [Registry.step, hadmission, hremaining, Option.some.injEq] at hstep
    rcases scanDescriptor_cases s a id rest removable with ⟨heq, -⟩ | ⟨⟨rfl, d, hfind, hreclaimable⟩, heq⟩ | heq
    · rw [heq, Prod.mk.injEq] at hstep
      rw [← hstep.1]
      exact ⟨accounts_admission _ _ _, fun _ => ⟨_, rfl⟩⟩
    · rw [heq, Prod.mk.injEq] at hstep
      rw [← hstep.1, ← hstep.2]
      refine ⟨accounts_remove _ fun d' hd' hid => .inr ⟨rfl, ?_⟩, fun _ => ⟨_, rfl⟩⟩
      obtain ⟨hd, hid'⟩ := find_mem hfind
      rwa [h.eq_of_id hd' hd (hid.trans hid'.symm)]
    · rw [heq, Prod.mk.injEq] at hstep
      rw [← hstep.1, ← hstep.2]
      exact ⟨accounts_admission _ _ _, nofun⟩
  | publish =>
    rcases hremaining : a.remaining with - | ⟨id, rest⟩
    · rcases hcreate : s.createWhileRegistryLocked a.requester a.process with - | t'
      · simp only [Registry.step, hadmission, hremaining, hcreate, Option.some.injEq, Prod.mk.injEq] at hstep
        rw [← hstep.1, ← hstep.2]
        exact ⟨accounts_admission _ _ _, nofun⟩
      · simp only [Registry.step, hadmission, hremaining, hcreate, Option.some.injEq, Prod.mk.injEq] at hstep
        exact absurd hstep.2.symm (hacquired _)
    · simp [Registry.step, hadmission, hremaining] at hstep
  | abort =>
    simp only [Registry.step, hadmission, Option.some.injEq, Prod.mk.injEq] at hstep
    rw [← hstep.1, ← hstep.2]
    exact ⟨accounts_admission _ _ _, nofun⟩
  | retire id =>
    rw [Registry.step] at hstep
    split at hstep
    · rw [Option.some.injEq, Prod.mk.injEq] at hstep
      rw [← hstep.1]
      exact ⟨accounts_remove _ fun d _ hid => .inl (by rw [hid]), fun _ => ⟨a, hadmission⟩⟩
    · cases hstep
  | die process =>
    simp only [Registry.step, Option.some.injEq, Prod.mk.injEq] at hstep
    rw [← hstep.1]
    exact ⟨accounts_setLock _ _ _ _, fun _ => ⟨a, hadmission⟩⟩
  | close id | handOff id process | probe id | unprobe id =>
    rw [Registry.step] at hstep
    split at hstep
    · rw [Option.some.injEq, Prod.mk.injEq] at hstep
      rw [← hstep.1]
      exact ⟨accounts_setLock _ _ _ _, fun _ => ⟨a, hadmission⟩⟩
    · cases hstep

/-- Found without an owner, by the scan of the acquisition the run belongs to. -/
def Reclaimed (s : Registry) (es : List (Event × Outcome)) (d : Descriptor) : Prop :=
  ∃ fs u, fs ++ [(.scan true, .none)] <+: es ∧ Run Step s fs u ∧
    ∃ d' ∈ u.published, d'.id = d.id ∧ d'.claimant = d.claimant ∧ d'.availability = .reclaimableEphemeral

/-- A whole run that publishes nothing, with what has become of every descriptor. -/
structure Accounted (s : Registry) (es : List (Event × Outcome)) (t : Registry) : Prop where
  still : ∀ d ∈ t.published, StillIn d s
  gone : ∀ d ∈ s.published, StillIn d t ∨ (∃ e ∈ es, e.1 = .retire d.id) ∨ Reclaimed s es d

theorem accounted_nil (s : Registry) : Accounted s [] s := ⟨fun _ => stillIn_of_mem, fun _ hd => .inl (stillIn_of_mem hd)⟩

theorem Accounted.snoc {u : Registry} {es : List (Event × Outcome)} {e : Event × Outcome} (h : Accounted s es t)
    (hrun : Run Step s es t) (he : Accounts t e u) : Accounted s (es ++ [e]) u := by
  refine ⟨fun d hd => ?_, fun d hd => ?_⟩
  · obtain ⟨d', hd', hid, hclaimant⟩ := he.still d hd
    exact StillIn.trans hid hclaimant (h.still d' hd')
  rcases h.gone d hd with ⟨d', hd', hid, hclaimant⟩ | ⟨f, hf, hretire⟩ | ⟨fs, v, hprefix, hreclaimed⟩
  · rcases he.gone d' hd' with hstill | hretire | ⟨rfl, hreclaimable⟩
    · exact .inl (StillIn.trans hid hclaimant hstill)
    · exact .inr (.inl ⟨e, List.mem_append_right _ (List.mem_singleton_self e), by rw [hretire, hid]⟩)
    · exact .inr (.inr ⟨es, t, List.prefix_rfl, hrun, d', hd', hid, hclaimant, hreclaimable⟩)
  · exact .inr (.inl ⟨f, List.mem_append_left _ hf, hretire⟩)
  · exact .inr (.inr ⟨fs, v, hprefix.trans (List.prefix_append _ _), hreclaimed⟩)

/-! ## Runs -/

theorem exclusive_empty : Exclusive Registry.empty :=
  ⟨List.nodup_nil, nofun, nofun, List.Pairwise.nil, nofun⟩

theorem Exclusive.run {es : List (Event × Outcome)} (h : Exclusive s) (hrun : Run Step s es t) : Exclusive t :=
  hrun.invariant (fun _ t => Exclusive t) h fun _ _ _ _ ht hstep => ht.step hstep

theorem begin_step {requester : Claimant} {process : ℕ} (h : Step s (.begin requester process, .none) t) :
    t.published = s.published ∧ ∃ a, t.admission = some a := by
  rw [Step] at h
  rcases hadmission : s.admission with - | a
  · simp only [Registry.step, hadmission, Option.some.injEq, Prod.mk.injEq] at h
    rw [← h.1]
    exact ⟨rfl, _, rfl⟩
  · simp [Registry.step, hadmission] at h

/-- While an acquisition runs, every step of the registry is accounted for. -/
theorem accounted_of_run {es : List (Event × Outcome)} {a : Admission} (h : Exclusive s) (hadmission : s.admission = some a)
    (hrun : Run Step s es t) (hnone : ∀ e ∈ es, e.2 = .none) : Accounted s es t ∧ ∃ a', t.admission = some a' := by
  induction hrun with
  | nil => exact ⟨accounted_nil s, a, hadmission⟩
  | snoc hrun hstep ih =>
    obtain ⟨haccounted, a', ha'⟩ := ih fun e he => hnone e (List.mem_append_left _ he)
    have hlast := hnone _ (List.mem_append_right _ (List.mem_singleton_self _))
    obtain ⟨haccounts, hadmission'⟩ := accounts_of_step (h.run hrun) ha' hstep fun id => by rw [hlast]; nofun
    exact ⟨haccounted.snoc hrun haccounts, hadmission' hlast⟩

/-- **Mutation claims exclude each other.** In every state that any interleaving of acquisitions, releases,
    deaths and recoveries reaches, two descriptors that are live or reserved for recovery conflict only within
    one lifecycle or group. An acquisition that is refused has published nothing, and the only descriptors
    missing after it are those their owners dropped and the ephemeral ones it found without an owner. -/
theorem mutationClaims_exclude {es : List (Event × Outcome)} (h : Run Step Registry.empty es s) :
    ((s.published.map Descriptor.id).Nodup ∧
      s.published.Pairwise fun p q => p.Reserves → q.Reserves → Compatible p.claimant q.claimant) ∧
    ∀ requester process fs e t u v, Step s (.begin requester process, .none) t → Run Step t fs u → (∀ f ∈ fs, f.2 = .none) →
      Step u (e, .refused) v → t.published = s.published ∧ Accounted t (fs ++ [(e, .refused)]) v := by
  have hs := exclusive_empty.run h
  refine ⟨⟨hs.nodup, hs.exclusive⟩, fun requester process fs e t u v hbegin hrun hnone hrefused => ?_⟩
  have ht := hs.step hbegin
  obtain ⟨hpublished, a, hadmission⟩ := begin_step hbegin
  obtain ⟨haccounted, a', ha'⟩ := accounted_of_run ht hadmission hrun hnone
  exact ⟨hpublished, haccounted.snoc hrun (accounts_of_step (ht.run hrun) ha' hrefused nofun).1⟩

/-- Two ephemeral claims on one path: the second is refused while the first has an owner. -/
theorem mutationClaims_exclude_refused : ∃ t v, Accounted t [(.scan false, .refused)] v ∧ t.published.length = 1 := by
  let claim : PathClaim := ⟨⟨[], [], [.rootDir, .normal [97]], none, none⟩, .write, .exact⟩
  have hbegin : Step Registry.empty (.begin ⟨.ephemeralMutation 0, [claim], none⟩ 0, .none)
    ⟨[], some ⟨⟨.ephemeralMutation 0, [claim], none⟩, 0, []⟩, 0⟩ := rfl
  have hpublish : Step ⟨[], some ⟨⟨.ephemeralMutation 0, [claim], none⟩, 0, []⟩, 0⟩ (.publish, .acquired 0)
    ⟨[⟨0, ⟨.ephemeralMutation 0, [claim], none⟩, .owned 0⟩], none, 1⟩ := rfl
  exact ⟨_, _, ((mutationClaims_exclude ((Run.single hbegin).append (.single hpublish))).2
    ⟨.ephemeralMutation 1, [claim], none⟩ 1 [] (.scan false) _ _ _ rfl .nil nofun rfl).2, rfl⟩

end Concurrency
