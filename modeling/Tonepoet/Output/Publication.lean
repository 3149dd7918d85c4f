import Tonepoet.Output.Transactions

/-!
# What a commit may replace

Under `RefuseExisting` the final path is looked at once, before the temporary file is made, and the commit renames over
whatever stands there by then. So nothing is replaced exactly when nobody puts a file at the path between the two. The
temporary file belongs to its transaction alone, and is gone once one cleanup of it went through.
-/

namespace Output

open Transition Rust

/-! ## What the labels of a run say -/

/-- A file now stands at the final path. -/
def createsFile : Event × Outcome → Bool
  | (.put (.file _), _) => true
  | (_, .published _ _ _) => true
  | _ => false

/-- The final path after a label, which only another creator and a publication change. -/
def entryAfter (entry : Option Entry) : Event × Outcome → Option Entry
  | (.put put, _) => some put
  | (_, .published _ content _) => some (.file content)
  | _ => entry

/-- The steps after the existence check of a transaction. -/
def sinceCheck (id : ℕ) (es : List (Event × Outcome)) : List (Event × Outcome) :=
  (es.reverse.takeWhile fun e => e.2 != .admitted id)

/-- A `RefuseExisting` commit that went through. -/
def refusingCommit : Event × Outcome → Bool
  | (_, .published .refuseExisting _ _) => true
  | _ => false

/-- A transaction published its file. -/
def Published (id : ℕ) (es : List (Event × Outcome)) : Prop :=
  ∃ ok overwrite content replaced, (.act id (.rename ok), .published overwrite content replaced) ∈ es

/-- A cleanup of a transaction went through. -/
def Removed (id : ℕ) (es : List (Event × Outcome)) : Prop := ∃ ok, (.act id (.cleanup ok), .removed) ∈ es

/-- Between the check of a `RefuseExisting` transaction and its commit nobody put a file at the final path. -/
def Undisturbed (es : List (Event × Outcome)) : Prop :=
  ∀ before id ok content replaced, before ++ [(.act id (.rename ok), .published .refuseExisting content replaced)] <+: es →
    ∀ e ∈ sinceCheck id before, createsFile e = false

/-! ## Phases -/

/-- The name of the temporary file, once there is one. -/
def Phase.temp : Phase → Option Str
  | .creating _ => none
  | .writing temp | .flushed temp | .synced temp | .renameFailed temp | .aborting temp | .dropping temp _ => some temp
  | .done temp _ => temp

/-- The temporary file is there. -/
def Phase.holds : Phase → Bool
  | .writing _ | .flushed _ | .synced _ | .renameFailed _ | .aborting _ => true
  | _ => false

/-- Published, or about to end so. -/
def Phase.isCommitted : Phase → Bool
  | .done _ .committed | .dropping _ .committed => true
  | _ => false

/-- The transaction is over and nothing was published. -/
def OutputTransaction.Failed (tx : OutputTransaction) : Prop := ∃ temp ending, tx.phase = .done temp ending ∧ ending ≠ .committed

/-! ## What a step of a transaction does -/

/-- The steps by what they change. -/
inductive Acts (name : FinalName) (dir : Directory) (tx : OutputTransaction) (action : Action) :
    Directory → OutputTransaction → Outcome → Prop where
  /-- Only the phase. -/
  | quiet {dir' : Directory} {phase : Phase} (hentry : dir'.finalEntry = dir.finalEntry) (htemps : dir'.temps = dir.temps)
      (hcounters : ∀ p, dir.counters p ≤ dir'.counters p) (htemp : phase.temp = tx.phase.temp) (hholds : phase.holds → tx.phase.holds)
      (hcommitted : phase.isCommitted = tx.phase.isCommitted) : Acts name dir tx action dir' { tx with phase := phase } .quiet
  | opened (nanos attempt : ℕ) {temp : Str} (htemp : tx.phase.temp = none)
      (hname : temp = name.candidateTempPath tx.process (dir.counters tx.process) nanos attempt) (hfree : dir.temps temp = none) :
      Acts name dir tx action
        { dir with temps := Function.update dir.temps temp (some [])
                   counters := Function.update dir.counters tx.process (dir.counters tx.process + 1) }
        { tx with phase := .writing temp } .quiet
  | wrote {temp : Str} (content : List UInt8) (hphase : tx.phase = .writing temp) :
      Acts name dir tx action { dir with temps := Function.update dir.temps temp (some content) } tx .quiet
  | published {temp : Str} {content : List UInt8} {ok : Bool} (haction : action = .rename ok) (hphase : tx.phase = .synced temp) :
      Acts name dir tx action { dir with finalEntry := some (.file content), temps := Function.update dir.temps temp none }
        { tx with phase := .done (some temp) .committed } (.published tx.overwrite content dir.finalEntry)
  | removed {temp : Str} {phase : Phase} {ok : Bool} (haction : action = .cleanup ok) (htemp : tx.phase.temp = some temp)
      (htemp' : phase.temp = some temp) (hholds : phase.holds = false) (hcommitted : phase.isCommitted = tx.phase.isCommitted) :
      Acts name dir tx action (cleanupTemp dir temp) { tx with phase := phase } .removed

variable {name : FinalName} {dir dir' : Directory} {tx tx' : OutputTransaction} {action : Action} {outcome : Outcome}

theorem renameForPolicy_eq_some {temp : Str} {ok : Bool} {overwrite : OutputOverwritePolicy} {content : List UInt8}
    (h : renameForPolicy dir temp ok overwrite = some (content, dir')) :
    dir' = { dir with finalEntry := some (.file content), temps := Function.update dir.temps temp none } := by
  unfold renameForPolicy at h
  split at h
  all_goals
    cases h
    try rfl

theorem acts_of_act (h : tx.act name dir action = some (dir', tx', outcome)) : Acts name dir tx action dir' tx' outcome := by
  obtain ⟨process, overwrite, phase⟩ := tx
  have hcounters : ∀ p, dir.counters p ≤ Function.update dir.counters process (dir.counters process + 1) p := by
    intro p
    rw [Function.update_apply]
    split <;> simp_all
  have hsame : ∀ p, dir.counters p ≤ dir.counters p := fun _ => le_rfl
  cases phase with
  | creating attempt =>
    cases action with
    | openTemp nanos fault =>
      simp only [OutputTransaction.act] at h
      split at h
      · cases h
        exact .quiet rfl rfl hcounters rfl nofun rfl
      · split at h
        · rename_i hfree
          cases h
          exact .opened nanos attempt rfl rfl hfree
        · split at h
          all_goals
            cases h
            exact .quiet rfl rfl hcounters rfl nofun rfl
    | _ => cases h
  | writing temp =>
    cases action with
    | write content =>
      cases h
      exact .wrote content rfl
    | flush ok =>
      cases h
      cases ok
      · exact .quiet rfl rfl hsame rfl nofun rfl
      · exact .quiet rfl rfl hsame rfl (fun _ => rfl) rfl
    | abort =>
      cases h
      exact .quiet rfl rfl hsame rfl (fun _ => rfl) rfl
    | drop =>
      cases h
      exact .quiet rfl rfl hsame rfl nofun rfl
    | _ => cases h
  | flushed temp =>
    cases action with
    | sync ok =>
      cases h
      cases ok
      · exact .quiet rfl rfl hsame rfl nofun rfl
      · exact .quiet rfl rfl hsame rfl (fun _ => rfl) rfl
    | _ => cases h
  | synced temp =>
    cases action with
    | rename ok =>
      simp only [OutputTransaction.act] at h
      split at h
      · rename_i hrename
        cases h
        rw [renameForPolicy_eq_some hrename]
        exact .published rfl rfl
      · cases h
        exact .quiet rfl rfl hsame rfl (fun _ => rfl) rfl
    | _ => cases h
  | renameFailed temp =>
    cases action with
    | cleanup ok =>
      cases ok
      all_goals cases h
      · exact .quiet rfl rfl hsame rfl nofun rfl
      · exact .removed rfl rfl rfl rfl rfl
    | _ => cases h
  | aborting temp =>
    cases action with
    | cleanup ok =>
      cases ok
      all_goals cases h
      · exact .quiet rfl rfl hsame rfl nofun rfl
      · exact .removed rfl rfl rfl rfl rfl
    | _ => cases h
  | dropping temp ending =>
    cases action with
    | cleanup ok =>
      have hending : (Phase.done (some temp) ending).isCommitted = (Phase.dropping temp ending).isCommitted := by cases ending <;> rfl
      cases ok
      all_goals cases h
      · exact .quiet rfl rfl hsame rfl nofun hending
      · exact .removed rfl rfl rfl rfl hending
    | _ => cases h
  | done temp ending => cases action <;> cases h

theorem act_ne_done (h : tx.act name dir action = some (dir', tx', outcome)) (temp : Option Str) (ending : Ending) :
    tx.phase ≠ .done temp ending := by
  intro hphase
  unfold OutputTransaction.act at h
  rw [hphase] at h
  cases action <;> cases h

/-- The transactions after one of them has moved. -/
theorem getElem?_set_cases {α : Type} {xs : List α} {i j : ℕ} {a b c : α} (ha : xs[i]? = some a) (h : (xs.set i b)[j]? = some c) :
    (j = i ∧ c = b) ∨ (j ≠ i ∧ xs[j]? = some c) := by
  have hlt : i < xs.length := (List.getElem?_eq_some_iff.1 ha).1
  by_cases hji : j = i
  · subst hji
    rw [List.getElem?_set_self hlt] at h
    exact .inl ⟨rfl, (Option.some.inj h).symm⟩
  · rw [List.getElem?_set_ne (Ne.symm hji)] at h
    exact .inr ⟨hji, h⟩

theorem getElem?_concat_cases {α : Type} {xs : List α} {j : ℕ} {b c : α} (h : (xs ++ [b])[j]? = some c) :
    (j = xs.length ∧ c = b) ∨ xs[j]? = some c := by
  rcases lt_trichotomy j xs.length with hlt | rfl | hgt
  · rw [List.getElem?_append_left hlt] at h
    exact .inr h
  · rw [List.getElem?_concat_length] at h
    exact .inl ⟨rfl, (Option.some.inj h).symm⟩
  · rw [List.getElem?_eq_none (by rw [List.length_append, List.length_singleton]; omega)] at h
    cases h

theorem Acts.overwrite_eq (h : Acts name dir tx action dir' tx' outcome) : tx'.overwrite = tx.overwrite := by cases h <;> rfl

theorem Acts.process_eq (h : Acts name dir tx action dir' tx' outcome) : tx'.process = tx.process := by cases h <;> rfl

/-! ## Temporary names belong to one transaction each -/

structure OwnNames (name : FinalName) (s : World) : Prop where
  named : ∀ (id : ℕ) (tx : OutputTransaction) (temp : Str), s.transactions[id]? = some tx → tx.phase.temp = some temp →
    ∃ counter < s.dir.counters tx.process, ∃ nanos attempt, temp = name.candidateTempPath tx.process counter nanos attempt
  distinct : ∀ (id id' : ℕ) (tx tx' : OutputTransaction) (temp : Str), s.transactions[id]? = some tx → s.transactions[id']? = some tx' →
    tx.phase.temp = some temp → tx'.phase.temp = some temp → id = id'

variable {s t : World}

/-- A name under a count that is not used up is nobody's. -/
theorem OwnNames.fresh (h : OwnNames name s) (process nanos attempt id : ℕ) (tx : OutputTransaction) (htx : s.transactions[id]? = some tx) :
    tx.phase.temp ≠ some (name.candidateTempPath process (s.dir.counters process) nanos attempt) := by
  intro htemp
  obtain ⟨counter, hlt, nanos', attempt', heq⟩ := h.named id tx _ htx htemp
  obtain ⟨rfl, rfl⟩ := candidateTempPath_inj heq
  exact lt_irrefl _ hlt

theorem OwnNames.act (h : OwnNames name s) {id : ℕ} (htx : s.transactions[id]? = some tx)
    (hact : Acts name s.dir tx action dir' tx' outcome) : OwnNames name ⟨dir', s.transactions.set id tx'⟩ := by
  have hcounters : ∀ p, s.dir.counters p ≤ dir'.counters p := by
    intro p
    cases hact with
    | quiet _ _ hcounters => exact hcounters p
    | opened =>
      change s.dir.counters p ≤ Function.update s.dir.counters tx.process _ p
      rw [Function.update_apply]
      split <;> simp_all
    | _ => exact le_rfl
  -- the moving transaction keeps its name, or takes one that nobody has
  have hown : tx'.phase.temp = tx.phase.temp ∨ ∃ nanos attempt, tx'.phase.temp =
      some (name.candidateTempPath tx.process (s.dir.counters tx.process) nanos attempt) ∧
        s.dir.counters tx.process < dir'.counters tx.process := by
    cases hact with
    | quiet _ _ _ htemp => exact .inl htemp
    | opened nanos attempt _ hname => exact .inr ⟨nanos, attempt, congrArg some hname, by simp⟩
    | wrote => exact .inl rfl
    | published _ hphase => exact .inl (by rw [hphase]; rfl)
    | removed _ htemp htemp' => exact .inl (by rw [htemp]; exact htemp')
  refine ⟨fun j tx₁ temp hj htemp => ?_, fun j j' tx₁ tx₂ temp hj hj' htemp htemp' => ?_⟩
  · rcases getElem?_set_cases htx hj with ⟨rfl, rfl⟩ | ⟨-, hj⟩
    · rw [hact.process_eq]
      rcases hown with hsame | ⟨nanos, attempt, hnew, hlt⟩
      · obtain ⟨counter, hlt, hname⟩ := h.named _ _ temp htx (hsame ▸ htemp)
        exact ⟨counter, hlt.trans_le (hcounters _), hname⟩
      · rw [hnew] at htemp
        exact ⟨_, hlt, nanos, attempt, (Option.some.inj htemp).symm⟩
    · obtain ⟨counter, hlt, hname⟩ := h.named j tx₁ temp hj htemp
      exact ⟨counter, hlt.trans_le (hcounters _), hname⟩
  · have hclash : ∀ k tx₃, s.transactions[k]? = some tx₃ → tx₃.phase.temp = some temp → tx'.phase.temp = some temp → k = id := by
      intro k tx₃ hk hk' hnew
      rcases hown with hsame | ⟨nanos, attempt, hname, -⟩
      · exact h.distinct k id tx₃ tx temp hk htx hk' (hsame ▸ hnew)
      · rw [hname] at hnew
        exact absurd (hk'.trans hnew.symm) (h.fresh _ _ _ k tx₃ hk)
    rcases getElem?_set_cases htx hj with ⟨rfl, rfl⟩ | ⟨-, hold⟩ <;>
      rcases getElem?_set_cases htx hj' with ⟨rfl, rfl⟩ | ⟨-, hold'⟩
    · rfl
    · exact (hclash j' tx₂ hold' htemp' htemp).symm
    · exact hclash j tx₁ hold htemp htemp'
    · exact h.distinct j j' tx₁ tx₂ temp hold hold' htemp htemp'

theorem OwnNames.create (h : OwnNames name s) {process : ℕ} {overwrite : OutputOverwritePolicy} {phase : Phase} (hphase : phase.temp = none) :
    OwnNames name { s with transactions := s.transactions ++ [⟨process, overwrite, phase⟩] } := by
  have hold : ∀ {j : ℕ} {tx₁ : OutputTransaction} {temp : Str}, (s.transactions ++ [⟨process, overwrite, phase⟩])[j]? = some tx₁ → tx₁.phase.temp = some temp →
      s.transactions[j]? = some tx₁ := by
    intro j tx₁ temp hj htemp
    rcases getElem?_concat_cases hj with ⟨-, rfl⟩ | hj
    · rw [hphase] at htemp
      cases htemp
    · exact hj
  exact ⟨fun j tx₁ temp hj htemp => h.named j tx₁ temp (hold hj htemp) htemp,
    fun j j' tx₁ tx₂ temp hj hj' htemp htemp' => h.distinct j j' tx₁ tx₂ temp (hold hj htemp) (hold hj' htemp') htemp htemp'⟩

/-! ## A temporary file stands until it is published or removed -/

variable {es : List (Event × Outcome)} {e : Event × Outcome}

/-- The temporary file of a transaction is no longer at its name. -/
def Gone (id : ℕ) (es : List (Event × Outcome)) : Prop := Published id es ∨ Removed id es

theorem published_concat {id : ℕ} : Published id (es ++ [e]) ↔
    Published id es ∨ ∃ ok overwrite content replaced, e = (.act id (.rename ok), .published overwrite content replaced) := by
  simp only [Published, List.mem_append, List.mem_singleton, exists_or, eq_comm (b := e)]

theorem removed_concat {id : ℕ} : Removed id (es ++ [e]) ↔ Removed id es ∨ ∃ ok, e = (.act id (.cleanup ok), .removed) := by
  simp only [Removed, List.mem_append, List.mem_singleton, exists_or, eq_comm (b := e)]

theorem gone_concat {id : ℕ} : Gone id (es ++ [e]) ↔ Gone id es ∨
    (∃ ok overwrite content replaced, e = (.act id (.rename ok), .published overwrite content replaced)) ∨
      ∃ ok, e = (.act id (.cleanup ok), .removed) := by
  rw [Gone, Gone, published_concat, removed_concat]
  exact or_or_or_comm

structure TempsKept (es : List (Event × Outcome)) (s : World) : Prop where
  present : ∀ (id : ℕ) (tx : OutputTransaction) (temp : Str), s.transactions[id]? = some tx → tx.phase.temp = some temp →
    (s.dir.temps temp = none ↔ Gone id es)
  gone : ∀ id, Gone id es → ∃ tx : OutputTransaction, s.transactions[id]? = some tx ∧ tx.phase.temp ≠ none ∧ tx.phase.holds = false
  committed : ∀ (id : ℕ) (tx : OutputTransaction), s.transactions[id]? = some tx → (tx.phase.isCommitted = true ↔ Published id es)

/-- Labels that move no temporary file. -/
theorem gone_concat_of_ne (es : List (Event × Outcome)) (e : Event × Outcome) (id : ℕ)
    (hpublished : ∀ overwrite content replaced, e.2 ≠ .published overwrite content replaced)
    (hremoved : e.2 ≠ .removed) : (Published id (es ++ [e]) ↔ Published id es) ∧ (Gone id (es ++ [e]) ↔ Gone id es) := by
  have hpub : ¬ ∃ ok overwrite content replaced, e = (.act id (.rename ok), .published overwrite content replaced) := by
    rintro ⟨ok, overwrite, content, replaced, rfl⟩
    exact hpublished _ _ _ rfl
  have hrem : ¬ ∃ ok, e = (.act id (.cleanup ok), .removed) := by
    rintro ⟨ok, rfl⟩
    exact hremoved rfl
  rw [published_concat, gone_concat, or_iff_left hpub, or_iff_left (not_or.2 ⟨hpub, hrem⟩)]
  exact ⟨Iff.rfl, Iff.rfl⟩

theorem TempsKept.of_gone_iff (h : TempsKept es s) {es' : List (Event × Outcome)} (hpublished : ∀ id, Published id es' ↔ Published id es)
    (hgone : ∀ id, Gone id es' ↔ Gone id es) : TempsKept es' s where
  present id tx temp htx htemp := (h.present id tx temp htx htemp).trans (hgone id).symm
  gone id hid := h.gone id ((hgone id).1 hid)
  committed id tx htx := (h.committed id tx htx).trans (hpublished id).symm

/-- Labels of another transaction. -/
theorem gone_concat_of_other {id id' : ℕ} (hne : id' ≠ id) :
    (Published id' (es ++ [(.act id action, outcome)]) ↔ Published id' es) ∧
      (Gone id' (es ++ [(.act id action, outcome)]) ↔ Gone id' es) := by
  have hpub : ¬ ∃ ok overwrite content replaced, ((.act id action, outcome) : Event × Outcome) =
      (.act id' (.rename ok), .published overwrite content replaced) := by
    rintro ⟨ok, overwrite, content, replaced, heq⟩
    cases heq
    exact hne rfl
  have hrem : ¬ ∃ ok, ((.act id action, outcome) : Event × Outcome) = (.act id' (.cleanup ok), .removed) := by
    rintro ⟨ok, heq⟩
    cases heq
    exact hne rfl
  rw [published_concat, gone_concat, or_iff_left hpub, or_iff_left (not_or.2 ⟨hpub, hrem⟩)]
  exact ⟨Iff.rfl, Iff.rfl⟩

/-- What has to be seen of the moving transaction. -/
theorem TempsKept.move (h : TempsKept es s) {id : ℕ} (htx : s.transactions[id]? = some tx)
    (hpresent : ∀ temp, tx'.phase.temp = some temp → (dir'.temps temp = none ↔ Gone id (es ++ [(.act id action, outcome)])))
    (hgone : Gone id (es ++ [(.act id action, outcome)]) → tx'.phase.temp ≠ none ∧ tx'.phase.holds = false)
    (hcommitted : tx'.phase.isCommitted = true ↔ Published id (es ++ [(.act id action, outcome)]))
    (hothers : ∀ id' tx₁ temp, id' ≠ id → s.transactions[id']? = some tx₁ → tx₁.phase.temp = some temp →
      dir'.temps temp = s.dir.temps temp) :
    TempsKept (es ++ [(.act id action, outcome)]) ⟨dir', s.transactions.set id tx'⟩ := by
  have hlt : id < s.transactions.length := (List.getElem?_eq_some_iff.1 htx).1
  refine ⟨fun j tx₁ temp hj htemp => ?_, fun j hj => ?_, fun j tx₁ hj => ?_⟩
  · rcases getElem?_set_cases htx hj with ⟨rfl, rfl⟩ | ⟨hne, hold⟩
    · exact hpresent temp htemp
    · rw [(gone_concat_of_other hne).2, ← h.present j tx₁ temp hold htemp]
      change dir'.temps temp = none ↔ _
      rw [hothers j tx₁ temp hne hold htemp]
  · by_cases hne : j = id
    · subst hne
      exact ⟨tx', List.getElem?_set_self hlt, hgone hj⟩
    · obtain ⟨tx₁, htx₁, hrest⟩ := h.gone j ((gone_concat_of_other hne).2.1 hj)
      exact ⟨tx₁, (List.getElem?_set_ne (Ne.symm hne)).trans htx₁, hrest⟩
  · rcases getElem?_set_cases htx hj with ⟨rfl, rfl⟩ | ⟨hne, hold⟩
    · exact hcommitted
    · rw [(gone_concat_of_other hne).1]
      exact h.committed j tx₁ hold

theorem TempsKept.not_gone (h : TempsKept es s) {id : ℕ} (htx : s.transactions[id]? = some tx) (hholds : tx.phase.holds = true) :
    ¬ Gone id es := by
  intro hgone
  obtain ⟨tx₁, htx₁, -, hnot⟩ := h.gone id hgone
  obtain rfl := Option.some.inj (htx.symm.trans htx₁)
  rw [hholds] at hnot
  cases hnot

theorem TempsKept.act (h : TempsKept es s) (hnames : OwnNames name s) {id : ℕ} (htx : s.transactions[id]? = some tx)
    (hact : Acts name s.dir tx action dir' tx' outcome) :
    TempsKept (es ++ [(.act id action, outcome)]) ⟨dir', s.transactions.set id tx'⟩ := by
  have hother : ∀ {temp : Str} (entry : Option (List UInt8)), tx.phase.temp = some temp → ∀ id' tx₁ temp', id' ≠ id →
      s.transactions[id']? = some tx₁ → tx₁.phase.temp = some temp' →
        Function.update s.dir.temps temp entry temp' = s.dir.temps temp' := by
    intro temp entry htemp id' tx₁ temp' hne htx₁ htemp'
    refine Function.update_of_ne ?_ _ _
    rintro rfl
    exact hne (hnames.distinct id' id tx₁ tx temp' htx₁ htx htemp' htemp)
  cases hact with
  | @quiet dir' phase _ htemps _ htemp hholds hcommitted =>
    have hquiet := fun id' => gone_concat_of_ne es (.act id action, .quiet) id' nofun nofun
    refine h.move htx (fun temp htemp' => ?_) (fun hgone => ?_) ?_ fun _ _ _ _ _ _ => by rw [htemps]
    · rw [(hquiet id).2, htemps]
      exact h.present id tx temp htx (htemp ▸ htemp')
    · obtain ⟨tx₁, htx₁, hsome, hnot⟩ := h.gone id ((hquiet id).2.1 hgone)
      obtain rfl := Option.some.inj (htx.symm.trans htx₁)
      refine ⟨fun hnone => hsome (htemp ▸ hnone), ?_⟩
      rw [← Bool.not_eq_true]
      exact fun hnew => by simp [hholds hnew] at hnot
    · rw [(hquiet id).1, ← h.committed id tx htx, hcommitted]
  | @opened nanos attempt temp htemp hname hfree =>
    have hquiet := fun id' => gone_concat_of_ne es (.act id action, .quiet) id' nofun nofun
    have hnot : ¬ Gone id es := by
      intro hgone
      obtain ⟨tx₁, htx₁, hsome, -⟩ := h.gone id hgone
      obtain rfl := Option.some.inj (htx.symm.trans htx₁)
      exact hsome htemp
    refine h.move htx (fun temp' htemp' => ?_) (fun hgone => absurd ((hquiet id).2.1 hgone) hnot) ?_ ?_
    · obtain rfl : temp = temp' := Option.some.inj htemp'
      rw [(hquiet id).2, iff_false_right hnot]
      simp
    · rw [(hquiet id).1]
      exact ⟨nofun, fun hpublished => absurd (.inl hpublished) hnot⟩
    · intro id' tx₁ temp' _ htx₁ htemp'
      refine Function.update_of_ne ?_ _ _
      rintro rfl
      exact hnames.fresh _ _ _ id' tx₁ htx₁ (hname ▸ htemp')
  | @wrote temp content hphase =>
    have hquiet := fun id' => gone_concat_of_ne es (.act id action, .quiet) id' nofun nofun
    have hnot := h.not_gone htx (by rw [hphase]; rfl)
    refine h.move htx (fun temp' htemp' => ?_) (fun hgone => absurd ((hquiet id).2.1 hgone) hnot) ?_ (hother _ (by rw [hphase]; rfl))
    · rw [hphase] at htemp'
      obtain rfl : temp = temp' := Option.some.inj htemp'
      rw [(hquiet id).2, iff_false_right hnot]
      simp
    · rw [(hquiet id).1]
      exact h.committed id tx htx
  | @published temp content ok haction hphase =>
    subst haction
    have hnow : Published id (es ++ [(.act id (.rename ok), .published tx.overwrite content s.dir.finalEntry)]) :=
      published_concat.2 (.inr ⟨_, _, _, _, rfl⟩)
    refine h.move htx (fun temp' htemp' => ?_) (fun _ => ⟨nofun, rfl⟩) ⟨fun _ => hnow, fun _ => rfl⟩ (hother _ (by rw [hphase]; rfl))
    obtain rfl : temp = temp' := Option.some.inj htemp'
    exact ⟨fun _ => .inl hnow, fun _ => Function.update_self ..⟩
  | @removed temp phase ok haction htemp htemp' hholds hcommitted =>
    subst haction
    have hnow : Removed id (es ++ [(.act id (.cleanup ok), .removed)]) := removed_concat.2 (.inr ⟨_, rfl⟩)
    refine h.move htx (fun temp₁ htemp₁ => ?_) (fun _ => ⟨?_, hholds⟩) ?_ (hother _ htemp)
    · obtain rfl : temp = temp₁ := Option.some.inj (htemp'.symm.trans htemp₁)
      exact ⟨fun _ => .inr hnow, fun _ => Function.update_self ..⟩
    · rw [show ({ tx with phase := phase } : OutputTransaction).phase.temp = some temp from htemp']
      nofun
    · rw [published_concat]
      refine (Eq.congr_left hcommitted).trans ((h.committed id tx htx).trans ?_)
      refine (or_iff_left ?_).symm
      rintro ⟨_, _, _, _, heq⟩
      cases heq

theorem TempsKept.create (h : TempsKept es s) {process : ℕ} {overwrite : OutputOverwritePolicy} {phase : Phase} (hphase : phase.temp = none)
    (hcommitted : phase.isCommitted = false) (houtcome : outcome = .quiet ∨ outcome = .admitted s.transactions.length) :
    TempsKept (es ++ [(.create process overwrite, outcome)])
      { s with transactions := s.transactions ++ [⟨process, overwrite, phase⟩] } := by
  have hquiet := fun id => gone_concat_of_ne es (.create process overwrite, outcome) id
    (by rcases houtcome with rfl | rfl <;> nofun) (by rcases houtcome with rfl | rfl <;> nofun)
  refine ⟨fun j tx₁ temp hj htemp => ?_, fun j hj => ?_, fun j tx₁ hj => ?_⟩
  · rcases getElem?_concat_cases hj with ⟨-, rfl⟩ | hj
    · rw [hphase] at htemp
      cases htemp
    · rw [(hquiet j).2]
      exact h.present j tx₁ temp hj htemp
  · obtain ⟨tx₁, htx₁, hrest⟩ := h.gone j ((hquiet j).2.1 hj)
    exact ⟨tx₁, (List.getElem?_append_left (List.getElem?_eq_some_iff.1 htx₁).1).trans htx₁, hrest⟩
  · rw [(hquiet j).1]
    rcases getElem?_concat_cases hj with ⟨rfl, rfl⟩ | hj
    · refine ⟨fun htrue => absurd (hcommitted.symm.trans htrue) (by decide), fun hpublished => ?_⟩
      obtain ⟨tx₁, htx₁, -⟩ := h.gone _ (.inl hpublished)
      exact absurd (List.getElem?_eq_some_iff.1 htx₁).1 (lt_irrefl _)
    · exact h.committed j tx₁ hj

/-! ## The final path -/

structure FinalKept (initial : Option Entry) (es : List (Event × Outcome)) (s : World) : Prop where
  entry : s.dir.finalEntry = es.foldl entryAfter initial
  /-- A file stands there just if one was put there after the check. -/
  check : ∀ (id : ℕ) (tx : OutputTransaction), s.transactions[id]? = some tx → tx.overwrite = .refuseExisting →
    tx.phase ≠ .done none .existingOutputRefused → isFile s.dir.finalEntry = (sinceCheck id es).any createsFile
  once : (∃ e ∈ es, refusingCommit e = true) → isFile s.dir.finalEntry = true

theorem sinceCheck_concat {id : ℕ} : sinceCheck id (es ++ [e]) = if e.2 = .admitted id then [] else e :: sinceCheck id es := by
  rw [sinceCheck, List.reverse_concat, List.takeWhile_cons]
  split <;> rename_i h <;> simp_all [sinceCheck]

variable {initial : Option Entry}

theorem createsFile_of_refusingCommit (h : refusingCommit e = true) : createsFile e = true := by
  obtain ⟨event, outcome⟩ := e
  cases outcome with
  | published overwrite content replaced => cases event <;> first | rfl | (rename_i entry; cases entry <;> rfl)
  | _ => cases h

theorem FinalKept.step (h : FinalKept initial es s) (hentry : t.dir.finalEntry = entryAfter s.dir.finalEntry e)
    (hfile : isFile t.dir.finalEntry = (createsFile e || isFile s.dir.finalEntry))
    (hcheck : ∀ (id : ℕ) (tx : OutputTransaction), t.transactions[id]? = some tx → tx.overwrite = .refuseExisting →
      tx.phase ≠ .done none .existingOutputRefused →
        (e.2 = .admitted id ∧ createsFile e = false ∧ isFile s.dir.finalEntry = false) ∨
          (e.2 ≠ .admitted id ∧ ∃ tx₀ : OutputTransaction, s.transactions[id]? = some tx₀ ∧ tx₀.overwrite = .refuseExisting ∧
            tx₀.phase ≠ .done none .existingOutputRefused)) :
    FinalKept initial (es ++ [e]) t where
  entry := by rw [List.foldl_concat, ← h.entry, hentry]
  check id tx htx hrefuse hadmitted := by
    rw [sinceCheck_concat, hfile]
    rcases hcheck id tx htx hrefuse hadmitted with ⟨hnow, hcreates, hnone⟩ | ⟨hnot, tx₀, htx₀, hrefuse₀, hadmitted₀⟩
    · rw [if_pos hnow, hcreates, hnone]
      rfl
    · rw [if_neg hnot, List.any_cons, h.check id tx₀ htx₀ hrefuse₀ hadmitted₀]
  once := by
    rintro ⟨e', he', hcommit⟩
    rw [hfile, Bool.or_eq_true]
    rcases List.mem_append.1 he' with hold | hnew
    · exact .inr (h.once ⟨e', hold, hcommit⟩)
    · obtain rfl := List.mem_singleton.1 hnew
      exact .inl (createsFile_of_refusingCommit hcommit)

/-! ## Runs -/

structure Follows (name : FinalName) (initial : Option Entry) (es : List (Event × Outcome)) (s : World) : Prop where
  names : OwnNames name s
  temps : TempsKept es s
  final : FinalKept initial es s

theorem follows_initial (dir : Directory) : Follows name dir.finalEntry [] ⟨dir, []⟩ :=
  ⟨⟨nofun, nofun⟩, ⟨nofun, fun _ h => (h.elim (fun ⟨_, _, _, _, h⟩ => nomatch h) fun ⟨_, h⟩ => nomatch h), nofun⟩,
    ⟨rfl, nofun, fun ⟨_, h, _⟩ => by cases h⟩⟩

theorem Follows.create (h : Follows name initial es s) {process : ℕ} {overwrite : OutputOverwritePolicy}
    (hstep : s.step name (.create process overwrite) = some (t, outcome)) :
    Follows name initial (es ++ [(.create process overwrite, outcome)]) t := by
  simp only [World.step] at hstep
  split at hstep
  · cases hstep
    refine ⟨h.names.create rfl, h.temps.create rfl rfl (.inl rfl), h.final.step rfl rfl fun id tx htx hrefuse hadmitted => ?_⟩
    rcases getElem?_concat_cases htx with ⟨-, rfl⟩ | htx
    · exact absurd rfl hadmitted
    · exact .inr ⟨nofun, tx, htx, hrefuse, hadmitted⟩
  · rename_i habsent
    cases hstep
    refine ⟨h.names.create rfl, h.temps.create rfl rfl (.inr rfl), h.final.step rfl rfl fun id tx htx hrefuse hadmitted => ?_⟩
    rcases getElem?_concat_cases htx with ⟨rfl, rfl⟩ | htx
    · obtain rfl : overwrite = .refuseExisting := hrefuse
      refine .inl ⟨rfl, rfl, ?_⟩
      have habsent : pathExists s.dir.finalEntry = false := by simpa using habsent
      revert habsent
      rcases s.dir.finalEntry with - | ⟨_⟩ | - | - <;> simp [pathExists, isFile]
    · have hlt : id < s.transactions.length := (List.getElem?_eq_some_iff.1 htx).1
      refine .inr ⟨fun heq => ?_, tx, htx, hrefuse, hadmitted⟩
      exact absurd (Outcome.admitted.inj heq) hlt.ne'

theorem Follows.put (h : Follows name initial es s) {entry : Entry} (hstep : s.step name (.put entry) = some (t, outcome)) :
    Follows name initial (es ++ [(.put entry, outcome)]) t := by
  simp only [World.step] at hstep
  split at hstep
  · rename_i hnone
    cases hstep
    have hquiet := fun id => gone_concat_of_ne es (.put entry, .quiet) id nofun nofun
    have htemps : TempsKept es { s with dir := { s.dir with finalEntry := some entry } } :=
      ⟨h.temps.present, h.temps.gone, h.temps.committed⟩
    refine ⟨⟨h.names.named, h.names.distinct⟩, htemps.of_gone_iff (fun id => (hquiet id).1) fun id => (hquiet id).2, h.final.step rfl ?_ fun id tx htx hrefuse hadmitted => ?_⟩
    · rw [hnone]
      cases entry <;> rfl
    · exact .inr ⟨nofun, tx, htx, hrefuse, hadmitted⟩
  · cases hstep

theorem step_act {id : ℕ} (hstep : s.step name (.act id action) = some (t, outcome)) : ∃ tx dir' tx', s.transactions[id]? = some tx ∧
    tx.act name s.dir action = some (dir', tx', outcome) ∧ t = ⟨dir', s.transactions.set id tx'⟩ := by
  simp only [World.step, Option.bind_eq_bind, Option.bind_eq_some_iff, Option.pure_def, Option.some.injEq, Prod.mk.injEq] at hstep
  obtain ⟨tx, htx, ⟨dir', tx', o⟩, hact, rfl, rfl⟩ := hstep
  exact ⟨tx, dir', tx', htx, hact, rfl⟩

theorem Follows.act (h : Follows name initial es s) {id : ℕ} (hstep : s.step name (.act id action) = some (t, outcome)) :
    Follows name initial (es ++ [(.act id action, outcome)]) t := by
  obtain ⟨tx, dir', tx', htx, hact, rfl⟩ := step_act hstep
  have hacts := acts_of_act hact
  have hadmitted : ∀ j, outcome ≠ .admitted j := by
    intro j
    cases hacts <;> nofun
  refine ⟨h.names.act htx hacts, h.temps.act h.names htx hacts, h.final.step ?_ ?_ fun j tx₁ hj hrefuse hphase => .inr ⟨hadmitted j, ?_⟩⟩
  · cases hacts with
    | quiet hentry => exact hentry
    | _ => rfl
  · cases hacts with
    | quiet hentry => exact congrArg isFile hentry
    | _ => rfl
  · rcases getElem?_set_cases htx hj with ⟨rfl, rfl⟩ | ⟨-, hold⟩
    · exact ⟨tx, htx, hacts.overwrite_eq ▸ hrefuse, act_ne_done hact _ _⟩
    · exact ⟨tx₁, hold, hrefuse, hphase⟩

/-- **Every step keeps what is known of a run.** -/
theorem Follows.step (h : Follows name initial es s) (hstep : Step name s e t) : Follows name initial (es ++ [e]) t := by
  obtain ⟨event, outcome⟩ := e
  cases event with
  | create process overwrite => exact h.create hstep
  | act id action => exact h.act hstep
  | put entry => exact h.put hstep

/-- A refusing commit replaces a file just if one was put there after its check. -/
theorem Follows.replaced (h : Follows name initial es s) {id : ℕ} {content : List UInt8} {replaced : Option Entry}
    (hstep : Step name s (.act id action, .published .refuseExisting content replaced) t) :
    isFile replaced = (sinceCheck id es).any createsFile ∧ replaced = s.dir.finalEntry := by
  obtain ⟨tx, dir', tx', htx, hact, -⟩ := step_act hstep
  have hacts := acts_of_act hact
  generalize houtcome : Outcome.published .refuseExisting content replaced = outcome at hacts
  cases hacts with
  | published =>
    obtain ⟨hoverwrite, -, rfl⟩ := Outcome.published.inj houtcome
    exact ⟨h.final.check id tx htx hoverwrite.symm (act_ne_done hact _ _), rfl⟩
  | _ => cases houtcome

theorem refusingCommit_cases (hstep : Step name s e t) (h : refusingCommit e = true) :
    ∃ id ok content replaced, e = (.act id (.rename ok), .published .refuseExisting content replaced) := by
  obtain ⟨event, outcome⟩ := e
  obtain ⟨content, replaced, rfl⟩ : ∃ content replaced, outcome = .published .refuseExisting content replaced := by
    cases outcome with
    | published overwrite content replaced =>
      cases overwrite with
      | refuseExisting => exact ⟨content, replaced, rfl⟩
      | replaceExisting => cases h
    | _ => cases h
  cases event with
  | create process overwrite =>
    simp only [Step, World.step] at hstep
    split at hstep <;> cases hstep
  | put entry =>
    simp only [Step, World.step] at hstep
    split at hstep <;> cases hstep
  | act id action =>
    obtain ⟨tx, dir', tx', -, hact, -⟩ := step_act hstep
    have hacts := acts_of_act hact
    generalize houtcome : Outcome.published .refuseExisting content replaced = outcome at hacts
    cases hacts with
    | published haction => exact ⟨id, _, content, replaced, by rw [haction, houtcome]⟩
    | _ => cases houtcome

/-! ## The contract -/

/-- What a run owes: a refusing commit replaces no file and only one goes through; the final path changes by other
creators and publications only; a transaction that failed published nothing, and its temporary file is gone. -/
structure Contract (initial : Option Entry) (es : List (Event × Outcome)) (t : World) : Prop where
  refuses : ∀ id ok content replaced, (.act id (.rename ok), .published .refuseExisting content replaced) ∈ es → isFile replaced = false
  once : (es.filter refusingCommit).length ≤ 1
  entry : t.dir.finalEntry = es.foldl entryAfter initial
  failed : ∀ (id : ℕ) (tx : OutputTransaction), t.transactions[id]? = some tx → tx.Failed →
    ¬ Published id es ∧ ∀ temp, tx.phase.temp = some temp → t.dir.temps temp = none

/-- Of each transaction that failed with a temporary file, one cleanup went through. -/
def CleanedUp (es : List (Event × Outcome)) (t : World) : Prop :=
  ∀ (id : ℕ) (tx : OutputTransaction), t.transactions[id]? = some tx → tx.Failed → tx.phase.temp ≠ none → Removed id es

theorem undisturbed_concat : Undisturbed (es ++ [e]) ↔ Undisturbed es ∧
    ∀ id ok content replaced, e = (.act id (.rename ok), .published .refuseExisting content replaced) →
      ∀ e' ∈ sinceCheck id es, createsFile e' = false := by
  constructor
  · intro h
    refine ⟨fun before id ok content replaced hpre => h before id ok content replaced (hpre.trans (List.prefix_append _ _)), ?_⟩
    rintro id ok content replaced rfl
    exact h es id ok content replaced List.prefix_rfl
  · rintro ⟨hold, hnew⟩ before id ok content replaced hpre
    rcases List.prefix_concat_iff.1 hpre with heq | hpre
    · obtain ⟨rfl, he⟩ := List.append_inj' heq rfl
      exact hnew id ok content replaced (List.cons.inj he).1.symm
    · exact hold before id ok content replaced hpre

/-- Of the commits of a run: none replaced a file just if none was disturbed, and then at most one went through. -/
theorem commits_of_run {dir : Directory} (h : Run (Step name) ⟨dir, []⟩ es t) : Follows name dir.finalEntry es t ∧
    ((∀ id ok content replaced, (.act id (.rename ok), .published .refuseExisting content replaced) ∈ es → isFile replaced = false) ↔
      Undisturbed es) ∧ (Undisturbed es → (es.filter refusingCommit).length ≤ 1) := by
  refine h.invariant (fun es t => Follows name dir.finalEntry es t ∧ ((∀ id ok content replaced,
    (.act id (.rename ok), .published .refuseExisting content replaced) ∈ es → isFile replaced = false) ↔ Undisturbed es) ∧
      (Undisturbed es → (es.filter refusingCommit).length ≤ 1)) ?_ ?_
  · refine ⟨follows_initial dir, ⟨fun _ before id ok content replaced hpre => ?_, nofun⟩, fun _ => Nat.zero_le _⟩
    exact absurd (List.prefix_nil.1 hpre) (by simp)
  · rintro es s e t ⟨hfollows, hiff, honce⟩ hstep
    refine ⟨hfollows.step hstep, ?_, fun hundisturbed => ?_⟩
    · rw [undisturbed_concat, ← hiff]
      constructor
      · refine fun hall => ⟨fun id ok content replaced hmem => hall id ok content replaced (List.mem_append_left _ hmem), ?_⟩
        rintro id ok content replaced rfl
        have hreplaced := hall id ok content replaced (List.mem_append_right _ (List.mem_singleton_self _))
        rw [(hfollows.replaced hstep).1, List.any_eq_false] at hreplaced
        exact fun e' he' => by simpa using hreplaced e' he'
      · rintro ⟨hold, hnew⟩ id ok content replaced hmem
        rcases List.mem_append.1 hmem with hmem | hmem
        · exact hold id ok content replaced hmem
        · obtain rfl := List.mem_singleton.1 hmem
          rw [(hfollows.replaced hstep).1, List.any_eq_false]
          exact fun e' he' => by simp [hnew id ok content replaced rfl e' he']
    · obtain ⟨hold, hnew⟩ := undisturbed_concat.1 hundisturbed
      rw [List.filter_append, List.length_append]
      by_cases hcommit : refusingCommit e = true
      · -- an earlier commit would have left its file there, and so disturbed this one
        have hfirst : es.filter refusingCommit = [] := by
          obtain ⟨id, ok, content, replaced, rfl⟩ := refusingCommit_cases hstep hcommit
          rw [List.filter_eq_nil_iff]
          intro e' he' hcommit'
          have hfile := hfollows.final.once ⟨e', he', hcommit'⟩
          obtain ⟨hreplaced, rfl⟩ := hfollows.replaced hstep
          rw [hfile, eq_comm, List.any_eq_true] at hreplaced
          obtain ⟨e'', he'', hcreates⟩ := hreplaced
          rw [hnew id ok content _ rfl e'' he''] at hcreates
          cases hcreates
        rw [hfirst, List.filter_cons_of_pos hcommit]
        rfl
      · rw [List.filter_cons_of_neg hcommit]
        exact honce hold

/-- **When `RefuseExisting` refuses.** The contract is met by exactly the runs in which nobody puts a file at the final path between
the check and the commit of a `RefuseExisting` transaction, and one cleanup of each failed transaction goes through. -/
theorem contract_iff {dir : Directory} (h : Run (Step name) ⟨dir, []⟩ es t) :
    Contract dir.finalEntry es t ↔ Undisturbed es ∧ CleanedUp es t := by
  obtain ⟨hfollows, hiff, honce⟩ := commits_of_run h
  have hfailed : ∀ (id : ℕ) (tx : OutputTransaction), t.transactions[id]? = some tx → tx.Failed → ¬ Published id es := by
    rintro id tx htx ⟨temp, ending, hphase, hending⟩ hpublished
    have hcommitted := (hfollows.temps.committed id tx htx).2 hpublished
    rw [hphase] at hcommitted
    cases ending <;> first | exact hending rfl | cases hcommitted
  constructor
  · refine fun hcontract => ⟨hiff.1 hcontract.refuses, fun id tx htx htxFailed htemp => ?_⟩
    obtain ⟨hnot, hgone⟩ := hcontract.failed id tx htx htxFailed
    obtain ⟨temp, htemp⟩ := Option.ne_none_iff_exists'.1 htemp
    exact ((hfollows.temps.present id tx temp htx htemp).1 (hgone temp htemp)).resolve_left hnot
  · rintro ⟨hundisturbed, hcleaned⟩
    refine ⟨hiff.2 hundisturbed, honce hundisturbed, hfollows.final.entry, fun id tx htx htxFailed => ⟨hfailed id tx htx htxFailed, ?_⟩⟩
    intro temp htemp
    exact (hfollows.temps.present id tx temp htx htemp).2 (.inr (hcleaned id tx htx htxFailed (by rw [htemp]; nofun)))

section

def trackDsf : FinalName := ⟨"track".toList, some "dsf".toList⟩

def emptyDirectory : Directory := ⟨none, fun _ => none, fun _ => 0⟩

/-- Two converters find the path free and both commit. -/
def twoConverters : List Event :=
  [.create 1 .refuseExisting, .act 0 (.openTemp 10 false), .create 2 .refuseExisting, .act 1 (.openTemp 11 false),
    .act 0 (.write [1]), .act 1 (.write [2]), .act 0 (.flush true), .act 0 (.sync true), .act 0 (.rename true),
    .act 1 (.flush true), .act 1 (.sync true), .act 1 (.rename true)]

/-- One converter commits, and the next one is refused. -/
def oneConverter : List Event :=
  [.create 1 .refuseExisting, .act 0 (.openTemp 10 false), .act 0 (.write [1]), .act 0 (.flush true), .act 0 (.sync true),
    .act 0 (.rename true), .create 2 .refuseExisting]

/-- The labels of a run of events. -/
def labels (name : FinalName) : World → List Event → Option (List (Event × Outcome) × World)
  | s, [] => some ([], s)
  | s, e :: es => do
    let (t, outcome) ← s.step name e
    let (rest, u) ← labels name t es
    return ((e, outcome) :: rest, u)

theorem run_of_labels {name : FinalName} : ∀ {events : List Event} {s u : World} {es : List (Event × Outcome)},
    labels name s events = some (es, u) → Run (Step name) s es u
  | [], s, u, es, h => by
    cases h
    exact .nil
  | e :: events, s, u, es, h => by
    simp only [labels, Option.bind_eq_bind, Option.bind_eq_some_iff, Option.pure_def, Option.some.injEq, Prod.mk.injEq] at h
    obtain ⟨⟨t, outcome⟩, hstep, ⟨rest, u'⟩, hrest, rfl, rfl⟩ := h
    exact (Run.single (e := (e, outcome)) hstep).append (run_of_labels hrest)

theorem oneConverter_meets_contract : ∃ es t, Run (Step trackDsf) ⟨emptyDirectory, []⟩ es t ∧ Contract none es t := by
  obtain ⟨⟨es, t⟩, hlabels⟩ : ∃ r, labels trackDsf ⟨emptyDirectory, []⟩ oneConverter = some r := ⟨_, rfl⟩
  have hrun := run_of_labels hlabels
  refine ⟨es, t, hrun, (contract_iff hrun).2 ⟨(commits_of_run hrun).2.1.1 fun id ok content replaced hmem => ?_, fun id tx htx hfailed htemp => ?_⟩⟩
  · cases hlabels
    simp only [List.mem_cons, Prod.mk.injEq, Event.act.injEq, reduceCtorEq, and_false, false_or, or_false, List.not_mem_nil,
      Outcome.published.injEq] at hmem
    obtain ⟨-, -, -, rfl⟩ := hmem
    rfl
  · cases hlabels
    match id, htx with
    | 0, htx =>
      cases htx
      obtain ⟨_, _, hphase, hending⟩ := hfailed
      cases hphase
      exact absurd rfl hending
    | 1, htx =>
      cases htx
      exact absurd rfl htemp

/-- The second commit replaces what the first has published. -/
theorem twoConverters_break_contract : ∃ es t, Run (Step trackDsf) ⟨emptyDirectory, []⟩ es t ∧ ¬ Contract none es t := by
  obtain ⟨⟨es, t⟩, hlabels⟩ : ∃ r, labels trackDsf ⟨emptyDirectory, []⟩ twoConverters = some r := ⟨_, rfl⟩
  refine ⟨es, t, run_of_labels hlabels, fun hcontract => ?_⟩
  have := hcontract.refuses 1 true [2] (some (.file [1])) (by cases hlabels; decide)
  cases this

end

end Output
