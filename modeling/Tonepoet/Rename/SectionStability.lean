import Tonepoet.Rename.WordStability

/-!
# Sections once more

A section keeps its words and the space between them, so the rules meet the same words in the same places.
-/

namespace Rename

open Rust AsciiCase

def opens (front : Str) : Bool := front.any fun ch => ['(', '[', '{', '"', '\'', '“', '‘'].contains ch

/-- The first word, the last one, one behind an ampersand or an opening delimiter, and one that is no small word. -/
def capitalizes (previous : Option Str) (isLast : Bool) (front core : Str) : Bool :=
  previous.isNone || isLast || ((previous.any fun p => p.contains '&') || front.contains '&') ||
    opens front || !nonCapitalizedWords.contains (lower core)

section
variable {n n' isLast : Bool} {previous previous' : Option Str} {w p k q : Str}

theorem capitalizeWord_eq (h : wordAffixes w = (p, k, q)) (hk : k ≠ []) : capitalizeWord w = p ++ (capitalizeWordCore k ++ q) := by
  rw [capitalizeWord, h]
  dsimp only
  rw [if_neg hk, List.append_assoc]

theorem lowercaseWordCore_eq (h : wordAffixes w = (p, k, q)) (hk : k ≠ []) : lowercaseWordCore w = p ++ (lower k ++ q) := by
  rw [lowercaseWordCore, h]
  dsimp only
  rw [if_neg hk, List.append_assoc]

/-- A word without a core is left alone. -/
theorem transformWord_noCore (h : wordAffixes w = (w, [], [])) : transformWord n previous isLast w = w := by
  have hcapitalize : capitalizeWord w = w := by
    rw [capitalizeWord, h]
    rfl
  have hlowercase : lowercaseWordCore w = w := by
    rw [lowercaseWordCore, h]
    rfl
  have hnormalize : normalizeWord n w = w := by
    rw [normalizeWord, hlowercase, ite_self]
  rw [transformWord, hnormalize, hcapitalize, hlowercase]
  exact ite_self _

theorem transformWord_eq (h : wordAffixes (normalizeWord n w) = (p, k, q)) (hk : k ≠ []) : transformWord n previous isLast w =
    if capitalizes previous isLast p k then p ++ (capitalizeWordCore k ++ q) else p ++ (lower k ++ q) := by
  rw [transformWord, capitalizeWord_eq h hk, lowercaseWordCore_eq h hk, wordHasOpeningPrefix, wordCore, h]
  rfl

/-- The word as it is read: with its core in lower case, or as it stands. -/
theorem normalizeWord_affixes (hp : NotAlphanum p) (hk : Bounded k) (hq : NotAlphanum q) :
    ∃ k₁, wordAffixes (normalizeWord n (p ++ (k ++ q))) = (p, k₁, q) ∧ Bounded k₁ ∧
      (k₁ = lower k ∧ n = true ∧ ¬ (opens p = true ∧ k = ['U', 'S']) ∨ k₁ = k ∧ (n = true → opens p = true ∧ k = ['U', 'S'])) := by
  have haffixes := wordAffixes_exact hp hk hq
  have hcore : wordCore (p ++ (k ++ q)) = k := by rw [wordCore, haffixes]
  have hopens : wordHasOpeningPrefix (p ++ (k ++ q)) = opens p := by
    rw [wordHasOpeningPrefix, haffixes]
    rfl
  rw [normalizeWord, hcore, hopens]
  split_ifs with h
  · rw [Bool.and_eq_true, Bool.not_eq_true', ← Bool.not_eq_true, Bool.and_eq_true, beq_iff_eq] at h
    rw [lowercaseWordCore_eq haffixes hk.ne_nil]
    exact ⟨lower k, wordAffixes_exact hp hk.lower hq, hk.lower, .inl ⟨rfl, h⟩⟩
  · refine ⟨k, haffixes, hk, .inr ⟨rfl, fun hn => ?_⟩⟩
    rw [hn, Bool.true_and, Bool.not_eq_true', Bool.not_eq_false, Bool.and_eq_true, beq_iff_eq] at h
    exact h

/-- A designator is kept. -/
theorem trimCore_designator : trimCore (capitalizeWordCore ['U', 'S']) = ['U', 'S'] := by decide +kernel

/-- **A word once more.** It stays as it is when the section around it is read as before, or no longer as all capitals. -/
theorem transformWord_again (hn : n' = true → n = true) (hnone : previous'.isNone = previous.isNone)
    (hampersand : (previous'.any fun s => s.contains '&') = previous.any fun s => s.contains '&')
    (hkept : KeptParts (wordCore (normalizeWord n w))) :
    transformWord n' previous' isLast (transformWord n previous isLast w) = transformWord n previous isLast w := by
  rcases wordAffixes_cases w with hnone' | ⟨p, k, q, rfl, hp, hk, hq⟩
  · rw [transformWord_noCore hnone', transformWord_noCore hnone']
  obtain ⟨k₁, haffixes, hk₁, hread⟩ := normalizeWord_affixes (n := n) hp hk hq
  have hcore : wordCore (normalizeWord n (p ++ (k ++ q))) = k₁ := by rw [wordCore, haffixes]
  rw [hcore] at hkept
  have hcapitalizes : ∀ {c c' : Str}, (lower c' ∈ nonCapitalizedWords → lower c ∈ nonCapitalizedWords) →
      capitalizes previous isLast p c = true → capitalizes previous' isLast p c' = true := by
    intro c c' hsmall h
    rw [capitalizes, hnone, hampersand]
    rw [capitalizes] at h
    rw [Bool.or_eq_true] at h ⊢
    rcases h with h | h
    · exact .inl h
    · right
      rw [Bool.not_eq_true', ← Bool.not_eq_true, List.contains_iff_mem] at h ⊢
      exact fun hmem => h (hsmall hmem)
  rw [transformWord_eq haffixes hk₁.ne_nil]
  split_ifs with hcap
  · have hrestored := restored hkept hk₁.last
    have hhead := (capitalized k₁).head hk₁.head
    have hbounded := trimCore_bounded hhead
    obtain ⟨back, hchanged, hback, hnot⟩ := wordAffixes_changed hp hhead hq
    rw [← hback]
    obtain ⟨k₃, haffixes₃, hk₃, hread₃⟩ := normalizeWord_affixes (n := n') hp hbounded hnot
    have hsmall : lower k₃ ∈ nonCapitalizedWords → lower k₁ ∈ nonCapitalizedWords := by
      rcases hread₃ with ⟨rfl, -⟩ | ⟨rfl, -⟩
      · rw [lower_lower]
        exact hrestored.small
      · exact hrestored.small
    rw [transformWord_eq haffixes₃ hk₃.ne_nil, if_pos (hcapitalizes hsmall hcap)]
    congr 2
    rcases hread₃ with ⟨rfl, hn', hother⟩ | ⟨rfl, -⟩
    · rcases hread with ⟨rfl, -, -⟩ | ⟨rfl, hdesignator⟩
      · exact hrestored.fromLower (lower_lower k)
      · obtain ⟨hopens, hus⟩ := hdesignator (hn hn')
        refine absurd ⟨hopens, ?_⟩ hother
        rw [hus]
        exact trimCore_designator
    · exact hrestored.again
  · have hlow := hk₁.lower
    obtain ⟨k₃, haffixes₃, hk₃, hread₃⟩ := normalizeWord_affixes (n := n') hp hlow hq
    have hsame : lower k₃ = lower k₁ := by
      rcases hread₃ with ⟨rfl, -⟩ | ⟨rfl, -⟩
      · rw [lower_lower, lower_lower]
      · rw [lower_lower]
    have hcap' : capitalizes previous' isLast p k₃ = false := by
      rw [capitalizes, hnone, hampersand, hsame]
      rw [capitalizes] at hcap
      exact Bool.not_eq_true _ ▸ hcap
    rw [transformWord_eq haffixes₃ hk₃.ne_nil, if_neg (by rw [hcap']; exact Bool.false_ne_true), hsame]

end

/-! ## The words of a section -/

/-- Words with space between them, and perhaps in front of the first. -/
def Separated : Bool → List (Str × Str) → Prop
  | _, [] => True
  | isFirst, (gap, word) :: words => (isFirst = false → gap ≠ []) ∧ (∀ c ∈ gap, isWhitespace c = true) ∧ word ≠ [] ∧
      (∀ c ∈ word, isWhitespace c = false) ∧ Separated false words

section
variable {s tail gap word : Str} {words : List (Str × Str)}

theorem Separated.first (h : Separated false words) : Separated true words := by
  cases words with
  | nil => trivial
  | cons w words => exact ⟨nofun, h.2⟩

/-- The words are those of the section, in their places. -/
theorem sectionWords_spec (s : Str) : joinWords (sectionWords s).1 (sectionWords s).2 = s ∧ Separated true (sectionWords s).1 ∧
    ∀ c ∈ (sectionWords s).2, isWhitespace c = true := by
  induction s with
  | nil => exact ⟨rfl, trivial, fun c hc => absurd hc List.not_mem_nil⟩
  | cons ch s ih =>
    obtain ⟨hjoin, hsep, htail⟩ := ih
    rw [sectionWords]
    generalize sectionWords s = result at hjoin hsep htail ⊢
    obtain ⟨words, tail⟩ := result
    cases hch : isWhitespace ch with
    | true =>
      rw [if_pos rfl]
      cases words with
      | nil =>
        refine ⟨congrArg (ch :: ·) hjoin, trivial, ?_⟩
        rw [List.forall_mem_cons]
        exact ⟨hch, htail⟩
      | cons w words =>
        obtain ⟨gap, word⟩ := w
        refine ⟨congrArg (ch :: ·) hjoin, ⟨nofun, ?_, hsep.2.2⟩, htail⟩
        rw [List.forall_mem_cons]
        exact ⟨hch, hsep.2.1⟩
    | false =>
      rw [if_neg Bool.false_ne_true]
      have hnew : ∀ words : List (Str × Str), Separated false words → Separated true (([], [ch]) :: words) := fun words h =>
        ⟨nofun, fun c hc => absurd hc List.not_mem_nil, List.cons_ne_nil _ _, fun c hc => by rwa [List.mem_singleton.1 hc], h⟩
      cases words with
      | nil => exact ⟨congrArg (ch :: ·) hjoin, hnew [] trivial, htail⟩
      | cons w words =>
        obtain ⟨gap, word⟩ := w
        cases gap with
        | nil =>
          refine ⟨congrArg (ch :: ·) hjoin, ⟨nofun, fun c hc => absurd hc List.not_mem_nil, List.cons_ne_nil _ _, ?_,
            hsep.2.2.2.2⟩, htail⟩
          rw [List.forall_mem_cons]
          exact ⟨hch, hsep.2.2.2.1⟩
        | cons g gap =>
          exact ⟨congrArg (ch :: ·) hjoin, hnew _ ⟨fun _ => List.cons_ne_nil _ _, hsep.2⟩, htail⟩

theorem sectionWords_gap (hgap : ∀ c ∈ gap, isWhitespace c = true) (h : sectionWords s = (([], word) :: words, tail)) :
    sectionWords (gap ++ s) = ((gap, word) :: words, tail) := by
  induction gap with
  | nil => exact h
  | cons c gap ih =>
    rw [List.forall_mem_cons] at hgap
    rw [List.cons_append, sectionWords, if_pos hgap.1, ih hgap.2]

theorem sectionWords_tail (htail : ∀ c ∈ tail, isWhitespace c = true) : sectionWords tail = ([], tail) := by
  induction tail with
  | nil => rfl
  | cons c tail ih =>
    rw [List.forall_mem_cons] at htail
    rw [sectionWords, if_pos htail.1, ih htail.2]

theorem sectionWords_word (hne : word ≠ []) (hword : ∀ c ∈ word, isWhitespace c = false) (hsep : Separated false words)
    (h : sectionWords s = (words, tail)) : sectionWords (word ++ s) = (([], word) :: words, tail) := by
  induction word with
  | nil => exact absurd rfl hne
  | cons c word ih =>
    rw [List.forall_mem_cons] at hword
    rw [List.cons_append, sectionWords, hword.1, if_neg Bool.false_ne_true]
    cases word with
    | nil =>
      rw [List.nil_append, h]
      cases words with
      | nil => rfl
      | cons w words =>
        obtain ⟨gap, word⟩ := w
        cases gap with
        | nil => exact absurd rfl (hsep.1 rfl)
        | cons g gap => rfl
    | cons d word => rw [ih (List.cons_ne_nil _ _) hword.2]

/-- Separated words are found again. -/
theorem sectionWords_joinWords (htail : ∀ c ∈ tail, isWhitespace c = true) : ∀ {isFirst : Bool} {words : List (Str × Str)},
    Separated isFirst words → sectionWords (joinWords words tail) = (words, tail)
  | _, [], _ => sectionWords_tail htail
  | _, (gap, word) :: words, ⟨_, hgap, hne, hword, hrest⟩ => by
    have hword' := sectionWords_word hne hword hrest (sectionWords_joinWords htail hrest)
    have hjoin : joinWords ((gap, word) :: words) tail = gap ++ (word ++ joinWords words tail) := by
      simp only [joinWords, List.flatMap_cons, List.append_assoc]
    rw [hjoin]
    exact sectionWords_gap hgap hword'

end

/-! ## What a word keeps -/

section
variable {n isLast : Bool} {previous : Option Str} {w : Str}

/-- A word is left alone, or its core is capitalized or put in lower case. -/
theorem transformWord_cases (n : Bool) (previous : Option Str) (isLast : Bool) (w : Str) :
    (wordAffixes w = (w, [], []) ∧ transformWord n previous isLast w = w) ∨ ∃ p k q k₁ k', w = p ++ (k ++ q) ∧ NotAlphanum p ∧ Bounded k ∧ NotAlphanum q ∧ lower k₁ = lower k ∧ (k₁ = lower k ∨ k₁ = k) ∧
      wordAffixes w = (p, k, q) ∧ transformWord n previous isLast w = p ++ (k' ++ q) ∧
      (k' = capitalizeWordCore k₁ ∨ lower k ∈ nonCapitalizedWords ∧ k' = lower k) := by
  rcases wordAffixes_cases w with hnone | ⟨p, k, q, rfl, hp, hk, hq⟩
  · exact .inl ⟨hnone, transformWord_noCore hnone⟩
  · right
    obtain ⟨k₁, haffixes, hk₁, hread⟩ := normalizeWord_affixes (n := n) hp hk hq
    have hsame : lower k₁ = lower k := by
      rcases hread with ⟨rfl, -⟩ | ⟨rfl, -⟩
      · exact lower_lower k
      · rfl
    have hread' : k₁ = lower k ∨ k₁ = k := hread.imp And.left And.left
    rw [transformWord_eq haffixes hk₁.ne_nil]
    split_ifs with hcap
    · exact ⟨p, k, q, k₁, _, rfl, hp, hk, hq, hsame, hread', wordAffixes_exact hp hk hq, rfl, .inl rfl⟩
    · refine ⟨p, k, q, k₁, _, rfl, hp, hk, hq, hsame, hread', wordAffixes_exact hp hk hq, rfl, .inr ⟨?_, hsame⟩⟩
      rw [capitalizes, Bool.or_eq_true, not_or, Bool.not_eq_true', Bool.not_eq_false, List.contains_iff_mem, hsame] at hcap
      exact hcap.2

theorem transformWord_forall_mem {P : Char → Prop} (hlower : ∀ c, P c → P c.toLower) (hupper : ∀ c, P c → P c.toUpper)
    (htable : ∀ k v, specialCase k = some v → ∀ c ∈ v, P c) (h : ∀ c ∈ w, P c) : ∀ c ∈ transformWord n previous isLast w, P c := by
  rcases transformWord_cases n previous isLast w with ⟨-, heq⟩ | ⟨p, k, q, k₁, k', rfl, -, -, -, -, hread, -, heq, hk'⟩
  · rwa [heq]
  · rw [heq]
    rw [List.forall_mem_append, List.forall_mem_append] at h ⊢
    have hlow : ∀ c ∈ lower k, P c := by
      intro c hc
      obtain ⟨d, hd, rfl⟩ := List.mem_map.1 hc
      exact hlower d (h.2.1 d hd)
    refine ⟨h.1, ?_, h.2.2⟩
    rcases hk' with rfl | ⟨-, rfl⟩
    · refine (capitalized k₁).forall_mem hlower hupper htable ?_
      rcases hread with rfl | rfl
      · exact hlow
      · exact h.2.1
    · exact hlow

theorem isWhitespace_of_isAlpha {c : Char} (h : c.isAlpha = true) : isWhitespace c = false := by
  rw [isAlpha_iff] at h
  simp only [isWhitespace, Bool.or_eq_false_iff, Bool.and_eq_false_iff, decide_eq_false_iff_not, beq_eq_false_iff_ne]
  omega

theorem transformWord_notWhitespace (h : ∀ c ∈ w, isWhitespace c = false) : ∀ c ∈ transformWord n previous isLast w, isWhitespace c = false := by
  have hcase : ∀ {c d : Char}, isWhitespace c = false → d.isAlpha = c.isAlpha → (c.isAlpha = false → d = c) → isWhitespace d = false := by
    intro c d hc halpha hsame
    cases hca : c.isAlpha with
    | true => exact isWhitespace_of_isAlpha (halpha.trans hca)
    | false => rw [hsame hca, hc]
  exact transformWord_forall_mem (P := fun c => isWhitespace c = false) (fun c hc => hcase hc (isAlpha_toLower c) toLower_of_not_isAlpha)
    (fun c hc => hcase hc (isAlpha_toUpper c) toUpper_of_not_isAlpha) (fun k v hspecial c hc => ((entryFacts hspecial).plainText c hc).1) h

theorem transformWord_ne_nil (h : w ≠ []) : transformWord n previous isLast w ≠ [] := by
  rcases transformWord_cases n previous isLast w with ⟨-, heq⟩ | ⟨p, k, q, k₁, k', rfl, -, hk, -, hsame, -, -, heq, hk'⟩
  · rwa [heq]
  · have hne : k' ≠ [] := by
      rcases hk' with rfl | ⟨-, rfl⟩
      · have hlength := (capitalized k₁).length_le
        have hlen := length_eq hsame
        have hpos := List.length_pos_iff.2 hk.ne_nil
        exact List.length_pos_iff.1 (by omega)
      · exact hk.lower.ne_nil
    rw [heq]
    intro hnil
    rw [List.append_eq_nil_iff, List.append_eq_nil_iff] at hnil
    exact hne hnil.2.1

/-- An ampersand stays in its word. -/
theorem ampersand_mem_transformWord : '&' ∈ transformWord n previous isLast w ↔ '&' ∈ w := by
  constructor
  · contrapose
    intro h hmem
    have hall : ∀ c ∈ transformWord n previous isLast w, c ≠ '&' := transformWord_forall_mem (P := fun c => c ≠ '&')
      (fun c hc h => hc ((toLower_eq_iff rfl).1 h)) (fun c hc h => hc ((toLower_eq_iff rfl).1 (by rw [← toLower_toUpper, h]; rfl)))
      (fun k v hspecial c hc heq => (entryFacts hspecial).ampersand (heq ▸ hc)) fun c hc heq => h (heq ▸ hc)
    exact hall _ hmem rfl
  · intro h
    rcases transformWord_cases n previous isLast w with ⟨-, heq⟩ | ⟨p, k, q, k₁, k', rfl, -, -, -, hsame, -, -, heq, hk'⟩
    · rwa [heq]
    · rw [heq]
      rw [List.mem_append, List.mem_append] at h ⊢
      refine h.imp_right fun h => h.imp_left fun h => ?_
      rcases hk' with rfl | ⟨-, rfl⟩
      · have hmem : '&' ∈ k₁ := (mem_congr rfl hsame).2 h
        cases hsplit : splitOnce '&' k₁ with
        | none => exact absurd hmem (splitOnce_eq_none.1 hsplit)
        | some pieces =>
          rw [capitalizeWordCore_ampersand hsplit]
          exact List.mem_append_right _ List.mem_cons_self
      · exact (mem_lower_iff rfl).2 h

end

/-! ## A section once more -/

section
variable {n n' : Bool} {previous previous' : Option Str}

theorem transformWords_separated : ∀ {isFirst : Bool} {previous : Option Str} {words : List (Str × Str)}, Separated isFirst words →
    Separated isFirst (transformWords n previous words)
  | _, _, [], _ => trivial
  | _, _, (_, _) :: _, ⟨hfirst, hgap, hne, hword, hrest⟩ =>
    ⟨hfirst, hgap, transformWord_ne_nil hne, transformWord_notWhitespace hword, transformWords_separated hrest⟩

theorem transformWords_isEmpty (words : List (Str × Str)) : (transformWords n previous words).isEmpty = words.isEmpty := by
  cases words <;> rfl

theorem transformWords_again (hn : n' = true → n = true) : ∀ {previous previous' : Option Str} {words : List (Str × Str)},
    previous'.isNone = previous.isNone → ((previous'.any fun s => s.contains '&') = previous.any fun s => s.contains '&') →
    (∀ w ∈ words, KeptParts (wordCore (normalizeWord n w.2))) →
    transformWords n' previous' (transformWords n previous words) = transformWords n previous words
  | _, _, [], _, _, _ => rfl
  | previous, previous', (gap, word) :: words, hnone, hampersand, hkept => by
    rw [List.forall_mem_cons] at hkept
    have hcontains : ((some (transformWord n previous words.isEmpty word)).any fun s => s.contains '&') =
        (some word).any fun s => s.contains '&' := by
      rw [Option.any_some, Option.any_some, Bool.eq_iff_iff, List.contains_iff_mem, List.contains_iff_mem]
      exact ampersand_mem_transformWord
    rw [transformWords, transformWords, transformWords_isEmpty, transformWord_again hn hnone hampersand hkept.1]
    exact congrArg (_ :: ·) (transformWords_again hn rfl hcontains hkept.2)

/-- No word of the section has a respelled component inside a part, and the section is all capitals afterwards only when it was. -/
structure SectionSettles (sect : Str) : Prop where
  capitals : isAllCaps (capitalizeSection sect) = true → isAllCaps sect = true
  words : ∀ w ∈ (sectionWords sect).1, KeptParts (wordCore (normalizeWord (isAllCaps sect) w.2))

/-- **A section once more.** -/
theorem capitalizeSection_again {sect : Str} (h : SectionSettles sect) :
    capitalizeSection (capitalizeSection sect) = capitalizeSection sect := by
  obtain ⟨-, hsep, htail⟩ := sectionWords_spec sect
  have hagain : Separated true (transformWords (isAllCaps sect) none (sectionWords sect).1) := transformWords_separated hsep
  have hwords := sectionWords_joinWords htail hagain
  have heq : capitalizeSection sect = joinWords (transformWords (isAllCaps sect) none (sectionWords sect).1) (sectionWords sect).2 := rfl
  have hcapitals := h.capitals
  rw [heq] at hcapitals ⊢
  rw [capitalizeSection, hwords]
  dsimp only
  rw [transformWords_again hcapitals rfl rfl h.words]

end

end Rename
