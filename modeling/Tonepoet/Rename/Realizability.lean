import Tonepoet.Rename.Installation
import Tonepoet.Rust

/-!
# Which accepted rename plans can be carried out

A plan that is accepted has distinct sources, all there, and distinct destinations. Its sources are always staged; whether its destinations can
be installed is not decided by the planner, which looks at the places before the moves and compares keys of paths.
-/

namespace Rename

open Concurrency (Component Path startsWith)
open PathTree Rust

variable {κ : Type} [DecidableEq κ] {display : Path → String} {casefoldPath : Path → κ} {fs : DirectoryTree} {baseDir : Path}
  {intents normalized : List RenameIntent} {plan : RenameTransactionPlan}

/-- The moves that intents ask for, but for those that change nothing. -/
def selectedMoves (display : Path → String) (intents : List RenameIntent) : List RenameIntent :=
  intents.filterMap fun intent =>
    match lexicalAbsolute display intent.source, lexicalAbsolute display intent.destination with
    | .ok source, .ok destination => if source = destination then none else some ⟨source, destination⟩
    | _, _ => none

/-- The sources of moves. -/
def sourcesOf (moves : List RenameIntent) : Set Path := {path | ∃ move ∈ moves, move.source = path}

theorem sources_eq (entries : List RenameTransactionEntry) : sources entries = sourcesOf (entries.map RenameTransactionEntry.intent) := by
  ext path
  simp only [sources, sourcesOf, Set.mem_ofPred_eq, List.mem_map, exists_exists_and_eq_and]
  rfl

theorem rejectUnstablePath_ok {path : Path} (h : rejectUnstablePath display path = .ok ()) :
    path ≠ [] ∧ pathParent path = some path.dropLast := by
  simp only [rejectUnstablePath] at h
  rw [error_if_eq_ok] at h
  obtain ⟨hsafe, -⟩ := h
  rw [Bool.or_eq_true, not_or] at hsafe
  refine ⟨fun hnil => hsafe.1 (List.isEmpty_iff.2 hnil), ?_⟩
  have hparent := hsafe.2
  rw [pathParent] at hparent ⊢
  split at hparent
  · exact absurd rfl hparent
  · exact absurd rfl hparent
  · rfl

/-- What an intent is normalized to. -/
theorem normalizeIntent_ok {intent move : RenameIntent} (h : normalizeIntent display baseDir intent = .ok move) :
    lexicalAbsolute display intent.source = .ok move.source ∧ lexicalAbsolute display intent.destination = .ok move.destination ∧
      move.destination ≠ [] ∧ pathParent move.destination = some move.destination.dropLast := by
  obtain ⟨source, hsource, h⟩ := bind_eq_ok.1 h
  obtain ⟨destination, hdestination, h⟩ := bind_eq_ok.1 h
  obtain ⟨⟨⟩, -, h⟩ := bind_eq_ok.1 h
  obtain ⟨⟨⟩, hstable, h⟩ := bind_eq_ok.1 h
  simp only [error_if_eq_ok] at h
  obtain ⟨-, -, -, ⟨⟩⟩ := h
  exact ⟨hsource, hdestination, rejectUnstablePath_ok hstable⟩

theorem mapM_normalizeIntent (h : intents.mapM (normalizeIntent display baseDir) = .ok normalized) :
    selectedMoves display intents = normalized.filter (fun move => move.source ≠ move.destination) ∧
      ∀ move ∈ normalized, move.destination ≠ [] ∧ pathParent move.destination = some move.destination.dropLast := by
  induction intents generalizing normalized with
  | nil =>
    cases h
    exact ⟨rfl, fun _ hmem => absurd hmem List.not_mem_nil⟩
  | cons intent intents ih =>
    rw [List.mapM_cons] at h
    obtain ⟨move, hmove, h⟩ := bind_eq_ok.1 h
    obtain ⟨moves, hmoves, ⟨⟩⟩ := bind_eq_ok.1 h
    obtain ⟨hsource, hdestination, hparent⟩ := normalizeIntent_ok hmove
    obtain ⟨hselected, hparents⟩ := ih hmoves
    refine ⟨?_, List.forall_mem_cons.2 ⟨hparent, hparents⟩⟩
    rw [selectedMoves] at hselected ⊢
    rw [List.filterMap_cons, hselected, hsource, hdestination]
    dsimp only
    split
    · rename_i hsome
      split at hsome
      · rw [List.filter_cons_of_neg (by simpa)]
      · cases hsome
    · rename_i hsome
      split at hsome
      · cases hsome
      · cases hsome
        rw [List.filter_cons_of_pos (by simpa)]

/-- Paths of distinct keys are distinct. -/
theorem checkKeys_ok {path : RenameIntent → Path} {error : RenameIntent → ℕ → ℕ → String} {seen : List κ} (hseen : seen.Nodup)
    (h : checkKeys casefoldPath path error seen normalized = .ok ()) : (seen ++ normalized.map fun move => casefoldPath (path move)).Nodup := by
  induction normalized generalizing seen with
  | nil => rwa [List.map_nil, List.append_nil]
  | cons move moves ih =>
    simp only [checkKeys] at h
    split at h
    · cases h
    · rename_i hnone
      have hnew : casefoldPath (path move) ∉ seen := by
        intro hmem
        rw [List.findIdx?_eq_none_iff] at hnone
        simpa using hnone _ hmem
      rw [List.map_cons, List.append_cons]
      refine ih (List.nodup_append.2 ⟨hseen, List.nodup_singleton _, ?_⟩) h
      rintro a ha b hb rfl
      rw [List.mem_singleton] at hb
      exact hnew (hb ▸ ha)

theorem nodup_of_checkKeys {path : RenameIntent → Path} {error : RenameIntent → ℕ → ℕ → String}
    (h : checkKeys casefoldPath path error [] normalized = .ok ()) : (normalized.map path).Nodup := by
  have hkeys := checkKeys_ok List.nodup_nil h
  rw [List.nil_append, ← Function.comp_def, ← List.map_map] at hkeys
  exact hkeys.of_map _

def entryOf (move : RenameIntent) : RenameTransactionEntry := ⟨move.source, move.destination, pathDepth move.source, pathDepth move.destination⟩

theorem planEntries_ok {keys : List κ} {start : RenameTransactionPlan}
    (h : planEntries display casefoldPath fs keys start normalized = .ok plan) :
    plan.entries = start.entries ++ (normalized.filter fun move => move.source ≠ move.destination).map entryOf ∧
      ∀ move ∈ normalized, move.source ≠ move.destination → fs.node move.source ≠ none := by
  induction normalized generalizing start with
  | nil =>
    cases h
    exact ⟨(List.append_nil _).symm, fun _ hmem => absurd hmem List.not_mem_nil⟩
  | cons move moves ih =>
    simp only [planEntries] at h
    split at h
    · rename_i heq
      obtain ⟨hentries, hthere⟩ := ih h
      rw [List.filter_cons_of_neg (by simpa), hentries]
      exact ⟨rfl, List.forall_mem_cons.2 ⟨fun hne => absurd heq hne, hthere⟩⟩
    · rename_i hne
      rw [error_if_eq_ok, error_if_eq_ok] at h
      obtain ⟨hthere, -, h⟩ := h
      obtain ⟨hentries, hothers⟩ := ih h
      rw [List.filter_cons_of_pos (by simpa), hentries, List.map_cons]
      exact ⟨List.append_assoc _ _ _, List.forall_mem_cons.2 ⟨fun _ hnone => hthere (Option.isNone_iff_eq_none.2 hnone), hothers⟩⟩

/-- What acceptance says of the entries. -/
structure PlanSpec (display : Path → String) (fs : DirectoryTree) (intents : List RenameIntent) (entries : List RenameTransactionEntry) : Prop where
  moves : entries.map RenameTransactionEntry.intent = selectedMoves display intents
  depths : ∀ entry ∈ entries, entry.sourceDepth = entry.source.length ∧ entry.destinationDepth = entry.destination.length
  sources : (entries.map RenameTransactionEntry.source).Nodup
  destinations : (entries.map RenameTransactionEntry.destination).Nodup
  there : ∀ entry ∈ entries, fs.node entry.source ≠ none
  parents : ∀ entry ∈ entries, entry.destination ≠ [] ∧ pathParent entry.destination = some entry.destination.dropLast

theorem planSpec_of_ok (h : planRenameTransaction display casefoldPath fs baseDir intents = .ok plan) :
    PlanSpec display fs intents plan.entries := by
  obtain ⟨base, -, h⟩ := bind_eq_ok.1 h
  obtain ⟨⟨⟩, -, h⟩ := bind_eq_ok.1 h
  obtain ⟨normalized, hnormalized, h⟩ := bind_eq_ok.1 h
  obtain ⟨⟨⟩, hsources, h⟩ := bind_eq_ok.1 h
  obtain ⟨⟨⟩, hdestinations, h⟩ := bind_eq_ok.1 h
  obtain ⟨planned, hplanned, h⟩ := bind_eq_ok.1 h
  obtain ⟨⟨⟩, -, ⟨⟩⟩ := bind_eq_ok.1 h
  obtain ⟨hselected, hparents⟩ := mapM_normalizeIntent hnormalized
  obtain ⟨hentries, hthere⟩ := planEntries_ok hplanned
  have hentries : plan.entries = (normalized.filter fun move => move.source ≠ move.destination).map entryOf := hentries
  have hmem : ∀ entry ∈ plan.entries, ∃ move ∈ normalized, move.source ≠ move.destination ∧ entryOf move = entry := by
    intro entry hentry
    rw [hentries] at hentry
    obtain ⟨move, hmove, rfl⟩ := List.mem_map.1 hentry
    obtain ⟨hmove, hne⟩ := List.mem_filter.1 hmove
    exact ⟨move, hmove, by simpa using hne, rfl⟩
  refine ⟨?_, fun entry hentry => ?_, ?_, ?_, fun entry hentry => ?_, fun entry hentry => ?_⟩
  · rw [hselected, hentries, List.map_map]
    exact List.map_id _
  · obtain ⟨move, -, -, rfl⟩ := hmem entry hentry
    exact ⟨rfl, rfl⟩
  · rw [hentries, List.map_map]
    exact (nodup_of_checkKeys hsources).sublist (List.filter_sublist.map _)
  · rw [hentries, List.map_map]
    exact (nodup_of_checkKeys hdestinations).sublist (List.filter_sublist.map _)
  · obtain ⟨move, hmove, hne, rfl⟩ := hmem entry hentry
    exact hthere move hmove hne
  · obtain ⟨move, hmove, -, rfl⟩ := hmem entry hentry
    exact hparents move hmove

/-! ## Carrying out -/

/-- The keys of an order say what is shallower. -/
theorem le_of_toLex_le {β : Type} [LinearOrder β] {a b : ℕ} {x y : β} (h : toLex (a, x) ≤ toLex (b, y)) : a ≤ b := by
  rcases Prod.Lex.le_iff.1 h with h | h
  · exact h.le
  · exact h.1.le

theorem stagingOrder_spec (hdepths : ∀ entry ∈ plan.entries, entry.sourceDepth = entry.source.length) :
    (inOrder plan plan.stagingOrder).Perm plan.entries ∧
      (inOrder plan plan.stagingOrder).Pairwise fun l r => l.source.length ≤ r.source.length := by
  obtain ⟨hperm, hsorted⟩ := inOrder_spec plan plan.sourceKey
  refine ⟨hperm, hsorted (fun entry => entry.source.length) fun i j l r hl hr hle => ?_⟩
  simp only [RenameTransactionPlan.sourceKey, hl, hr] at hle
  rw [← hdepths l (List.mem_of_getElem? hl), ← hdepths r (List.mem_of_getElem? hr)]
  exact le_of_toLex_le hle

theorem installationOrder_spec (hdepths : ∀ entry ∈ plan.entries, entry.destinationDepth = entry.destination.length) :
    (inOrder plan plan.installationOrder).Perm plan.entries ∧
      (inOrder plan plan.installationOrder).Pairwise fun l r => l.destination.length ≤ r.destination.length := by
  obtain ⟨hperm, hsorted⟩ := inOrder_spec plan plan.destinationKey
  refine ⟨hperm, hsorted (fun entry => entry.destination.length) fun i j l r hl hr hle => ?_⟩
  simp only [RenameTransactionPlan.destinationKey, hl, hr] at hle
  rw [← hdepths l (List.mem_of_getElem? hl), ← hdepths r (List.mem_of_getElem? hr)]
  exact le_of_toLex_le hle

/-- All staged. -/
theorem stageAll_spec (h : PlanSpec display fs intents plan.entries) :
    ∃ state, stageAll fs plan = some state ∧ (∀ q v, state.tree q = some v ↔ Remains fs.node (sourcesOf (selectedMoves display intents)) q v) ∧
      StagedSubtrees fs (sourcesOf (selectedMoves display intents)) plan.entries state.staged := by
  obtain ⟨hperm, hsorted⟩ := stagingOrder_spec fun entry hentry => (h.depths entry hentry).1
  obtain ⟨state, hrun, hstaged⟩ := (staged_nil fs).run h.there hperm h.sources hsorted
  have hsources : sources ([] ++ inOrder plan plan.stagingOrder) = sourcesOf (selectedMoves display intents) := by
    rw [← h.moves, ← sources_eq, List.nil_append]
    ext path
    simp only [sources, Set.mem_ofPred_eq, hperm.mem_iff]
  rw [← hsources]
  exact ⟨state, hrun, hstaged.tree, fun entry hentry => hstaged.staged entry (hperm.symm.subset hentry)⟩

/-- **Carrying out** succeeds exactly when every move is placeable, and then all has moved. -/
theorem carryOut_spec (h : PlanSpec display fs intents plan.entries) :
    (∀ final, carryOut fs plan = some final →
        ∀ q v, final q = some v ↔ MovedTree fs (sourcesOf (selectedMoves display intents)) (selectedMoves display intents) q v) ∧
      ((carryOut fs plan).isSome ↔
        ∀ move ∈ selectedMoves display intents,
          Placeable fs (sourcesOf (selectedMoves display intents)) (selectedMoves display intents) move) := by
  obtain ⟨state, hstate, htree, hstaged⟩ := stageAll_spec h
  obtain ⟨hperm, hsorted⟩ := installationOrder_spec fun entry hentry => (h.depths entry hentry).2
  obtain ⟨hfinal, hsome⟩ := (installed_nil htree).run hstaged hperm h.destinations h.parents hsorted
  have hrun : carryOut fs plan = (inOrder plan plan.installationOrder).foldlM (installEntry state.staged) state.tree := by
    rw [carryOut, hstate]
    rfl
  rw [hrun]
  refine ⟨fun final hfold q v => ?_, hsome.trans ?_⟩
  · rw [(hfinal final hfold).node, List.nil_append, ← h.moves, movedTree_map, movedTree_map]
    exact or_congr_right (exists_congr fun entry => and_congr_left' hperm.mem_iff)
  · rw [← h.moves, List.forall_mem_map]
    exact forall_congr' fun entry => imp_congr_left hperm.mem_iff

/-! ## Sample trees -/

/-- What a list of nodes says stands at a path. -/
def lookup (nodes : List (Path × Node)) (path : Path) : Option Node := (nodes.find? fun node => node.1 = path).map Prod.snd

/-- A tree that is listed. -/
def DirectoryTree.ofList (nodes : List (Path × Node))
    (h : ∀ node ∈ nodes, node.1 ≠ [] → lookup nodes node.1.dropLast = some .directory) : DirectoryTree where
  node := lookup nodes
  parent path component hne := by
    rw [lookup, ne_eq, Option.map_eq_none_iff] at hne
    obtain ⟨node, hnode⟩ := Option.ne_none_iff_exists'.1 hne
    have hpath : node.1 = path ++ [component] := by simpa using List.find?_some hnode
    have hparent := h node (List.mem_of_find?_eq_some hnode) (by rw [hpath]; simp)
    rwa [hpath, List.dropLast_concat] at hparent

/-- A path of names of one letter. -/
def rooted (letters : List Char) : Path := .rootDir :: letters.map fun letter => .normal [UInt8.ofNat letter.toNat]

/-- `to_lowercase` of ASCII names. -/
def asciiCasefold (path : Path) : Path :=
  path.map fun component =>
    match component with
    | .normal name => .normal (name.map fun byte => if 65 ≤ byte ∧ byte ≤ 90 then byte + 32 else byte)
    | other => other

/-- A directory with files of two names that differ in case, and a third. -/
def sampleNodes : List (Path × Node) :=
  [([], .directory), (rooted [], .directory), (rooted ['t'], .directory), (rooted ['t', 'a'], .file [1]), (rooted ['t', 'b'], .file [2]),
    (rooted ['t', 'B'], .file [3])]

def sampleTree : DirectoryTree := .ofList sampleNodes (by decide +kernel)

/-- The files `a` and `b` change places. -/
def swapIntents : List RenameIntent :=
  [⟨rooted ['t', 'a'], rooted ['t', 'b']⟩, ⟨rooted ['t', 'b'], rooted ['t', 'a']⟩]

def planOf (moves : List RenameIntent) : RenameTransactionPlan := ⟨moves.map entryOf, []⟩

theorem swap_accepted : planRenameTransaction (fun _ => "") asciiCasefold sampleTree (rooted ['t']) swapIntents = .ok (planOf swapIntents) := by
  decide +kernel

/-- The file `b` goes elsewhere, and `a` goes where `B` is. -/
def caseIntents : List RenameIntent :=
  [⟨rooted ['t', 'b'], rooted ['t', 'c']⟩, ⟨rooted ['t', 'a'], rooted ['t', 'B']⟩]

theorem case_accepted : planRenameTransaction (fun _ => "") asciiCasefold sampleTree (rooted ['t']) caseIntents = .ok (planOf caseIntents) := by
  decide +kernel

/-- **Which accepted plans can be carried out**: those whose destinations, in the tree when all has moved, have a directory above them and nothing
else at them. The sources are always found. -/
theorem carriedOut_iff (baseDir : Path) (h : planRenameTransaction display casefoldPath fs baseDir intents = .ok plan) :
    (stageAll fs plan).isSome ∧
      ((∃ final, carryOut fs plan = some final ∧
          ∀ q v, final q = some v ↔ MovedTree fs (sourcesOf (selectedMoves display intents)) (selectedMoves display intents) q v) ↔
        ∀ move ∈ selectedMoves display intents,
          Placeable fs (sourcesOf (selectedMoves display intents)) (selectedMoves display intents) move) := by
  have hspec := planSpec_of_ok h
  obtain ⟨state, hstate, -⟩ := stageAll_spec hspec
  obtain ⟨hfinal, hsome⟩ := carryOut_spec hspec
  refine ⟨by rw [hstate]; rfl, ?_⟩
  rw [← hsome, Option.isSome_iff_exists]
  exact exists_congr fun final => ⟨fun hall => hall.1, fun hrun => ⟨hrun, hfinal final hrun⟩⟩

theorem swap_carriedOut : planRenameTransaction (fun _ => "") asciiCasefold sampleTree (rooted ['t']) swapIntents = .ok (planOf swapIntents) ∧
    (stageAll sampleTree (planOf swapIntents)).isSome :=
  ⟨swap_accepted, (carriedOut_iff (rooted ['t']) swap_accepted).1⟩

/-- **A plan that would overwrite**: `b` is a source, so `B` counts as vacated, but it stays where it is. -/
theorem case_not_carriedOut : planRenameTransaction (fun _ => "") asciiCasefold sampleTree (rooted ['t']) caseIntents = .ok (planOf caseIntents) ∧
    (∃ state, stageAll sampleTree (planOf caseIntents) = some state ∧ state.tree (rooted ['t', 'B']) = some (.file [3])) ∧
      carryOut sampleTree (planOf caseIntents) = none := by
  have hspec := planSpec_of_ok case_accepted
  obtain ⟨state, hstate, htree, -⟩ := stageAll_spec hspec
  have hmoves : selectedMoves (fun _ => "") caseIntents = caseIntents := by decide +kernel
  have hthere : Remains sampleTree.node (sourcesOf (selectedMoves (fun _ => "") caseIntents)) (rooted ['t', 'B']) (.file [3]) := by
    rw [hmoves]
    refine ⟨by decide +kernel, ?_⟩
    rintro _ ⟨move, hmove, rfl⟩
    have hall : ∀ move ∈ caseIntents, ¬ move.source <+: rooted ['t', 'B'] := by decide +kernel
    exact hall move hmove
  refine ⟨case_accepted, ⟨state, hstate, (htree _ _).2 hthere⟩, ?_⟩
  rw [← Option.not_isSome_iff_eq_none, (carryOut_spec hspec).2]
  intro hall
  have hmem : (⟨rooted ['t', 'a'], rooted ['t', 'B']⟩ : RenameIntent) ∈ selectedMoves (fun _ => "") caseIntents := by
    rw [hmoves]
    decide +kernel
  exact (hall _ hmem).vacated _ hthere

end Rename
