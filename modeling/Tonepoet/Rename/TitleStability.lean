import Mathlib.Data.List.Forall2
import Tonepoet.Rename.SectionStability

/-!
# Titles: what changes, and what a second pass changes

The parentheses of a title stay where they are, so a second pass meets the sections of the first one.
-/

namespace Rename

open Rust AsciiCase

/-- The sections of a title: between the parentheticals, and these with their delimiters. -/
def titleSections (title : Str) : List Str :=
  match _hfind : findParenthetical title with
  | none => [title]
  | some (before, content, after) => before :: ('(' :: (content ++ [')'])) :: titleSections after
  termination_by title.length
  decreasing_by
    obtain ⟨rfl, -, -⟩ := findParenthetical_eq_some.1 _hfind
    simp only [List.length_append, List.length_cons]
    omega

/-! ## Up to letter case -/

/-- A core in lower case, and what it may become: every component takes the spelling of the table, or a change in case. -/
inductive Recased : Str → Str → Prop where
  | special {w v : Str} : '&' ∉ w → specialCase w = some v → Recased w v
  | cased {w r : Str} : '&' ∉ w → specialCase w = none → lower r = w → Recased w r
  | ampersand {a b a' b' : Str} : '&' ∉ a → Recased a a' → Recased b b' → Recased (a ++ '&' :: b) (a' ++ '&' :: b')
  | apostrophe {a b a' b' : Str} : '&' ∉ a ++ '\'' :: b → specialCase (a ++ '\'' :: b) = none → '\'' ∉ a → Recased a a' → lower b' = b →
      Recased (a ++ '\'' :: b) (a' ++ '\'' :: b')
  | hyphen {a b a' b' : Str} : '&' ∉ a ++ '-' :: b → specialCase (a ++ '-' :: b) = none → '\'' ∉ a ++ '-' :: b → '-' ∉ a → Recased a a' →
      Recased b b' → Recased (a ++ '-' :: b) (a' ++ '-' :: b')
  | slash {a b a' b' : Str} : '&' ∉ a ++ '/' :: b → specialCase (a ++ '/' :: b) = none → '\'' ∉ a ++ '/' :: b → '-' ∉ a ++ '/' :: b →
      '/' ∉ a → Recased a a' → Recased b b' → Recased (a ++ '/' :: b) (a' ++ '/' :: b')

/-- The affixes stay, and the core is recased. -/
def WordRecased (w w' : Str) : Prop :=
  ∃ core', Recased (lower (wordCore w)) core' ∧ w = (wordAffixes w).1 ++ (wordCore w ++ (wordAffixes w).2.2) ∧
    w' = (wordAffixes w).1 ++ (core' ++ (wordAffixes w).2.2)

/-- The space stays, and every word is recased. -/
def SectionRecased (s r : Str) : Prop :=
  joinWords (sectionWords s).1 (sectionWords s).2 = s ∧ ∃ words', r = joinWords words' (sectionWords s).2 ∧
    List.Forall₂ (fun w w' => w'.1 = w.1 ∧ WordRecased w.2 w'.2) (sectionWords s).1 words'

/-- Every section is recased. -/
def TitleRecased (title result : Str) : Prop :=
  (titleSections title).flatten = title ∧ ∃ sections', result = sections'.flatten ∧ List.Forall₂ SectionRecased (titleSections title) sections'

section
variable {w r s a b : Str}

theorem Capitalized.recased (h : Capitalized w r) : Recased (lower w) r := by
  have hcased : ∀ {w r : Str}, Plain w → lower r = lower w → Recased (lower w) r := fun hplain hcase =>
    .cased ((mem_lower_iff rfl).not.2 hplain.ampersand) hplain.special hcase
  have hsame : ∀ {x : Char}, x.isAlpha = false → x.toLower = x := toLower_of_not_isAlpha
  induction h with
  | nil => exact .cased List.not_mem_nil special_nil rfl
  | ampersand hmem _ _ iha ihb =>
    rw [lower_append, lower_cons]
    exact .ampersand ((mem_lower_iff rfl).not.2 hmem) iha ihb
  | special hmem hspecial => exact .special ((mem_lower_iff rfl).not.2 hmem) hspecial
  | dotted hplain _ => exact hcased hplain (lower_upper _)
  | capitals hplain _ _ => exact hcased hplain rfl
  | roman hplain _ _ _ => exact hcased hplain (lower_upper _)
  | @apostrophe a b a' hordinary hmem _ iha =>
    have hand := (mem_lower_iff rfl).not.2 hordinary.ampersand
    have hspecial := hordinary.special
    rw [lower_append, lower_cons] at hand hspecial ⊢
    exact .apostrophe hand hspecial ((mem_lower_iff rfl).not.2 hmem) iha rfl
  | @hyphen a b a' b' hordinary happos hmem _ _ iha ihb =>
    have hand := (mem_lower_iff rfl).not.2 hordinary.ampersand
    have hspecial := hordinary.special
    have happos' := (mem_lower_iff rfl).not.2 happos
    rw [lower_append, lower_cons] at hand hspecial happos' ⊢
    exact .hyphen hand hspecial happos' ((mem_lower_iff rfl).not.2 hmem) iha ihb
  | @slash a b a' b' hordinary happos hhyphen hmem _ _ iha ihb =>
    have hand := (mem_lower_iff rfl).not.2 hordinary.ampersand
    have hspecial := hordinary.special
    have happos' := (mem_lower_iff rfl).not.2 happos
    have hhyphen' := (mem_lower_iff rfl).not.2 hhyphen
    rw [lower_append, lower_cons] at hand hspecial happos' hhyphen' ⊢
    exact .slash hand hspecial happos' hhyphen' ((mem_lower_iff rfl).not.2 hmem) iha ihb
  | @word w hordinary _ _ _ =>
    refine hcased hordinary.toPlain ?_
    cases w <;> simp [capitalizeFirst]

/-- A small word is not in the table. -/
theorem recased_small (h : w ∈ nonCapitalizedWords) : Recased w w := by
  have hall : ∀ w ∈ nonCapitalizedWords, '&' ∉ w ∧ specialCase w = none ∧ lower w = w := by decide
  obtain ⟨hand, hspecial, hlow⟩ := hall w h
  exact .cased hand hspecial hlow

theorem transformWord_recased (n : Bool) (previous : Option Str) (isLast : Bool) (w : Str) :
    WordRecased w (transformWord n previous isLast w) := by
  rcases transformWord_cases n previous isLast w with ⟨hnone, heq⟩ | ⟨p, k, q, k₁, k', rfl, -, hk, -, hsame, -, haffixes, heq, hk'⟩
  · refine ⟨[], .cased ?_ ?_ ?_, ?_, ?_⟩
    · rw [wordCore, hnone]
      exact List.not_mem_nil
    · rw [wordCore, hnone]
      exact special_nil
    · rw [wordCore, hnone]
    · rw [wordCore, hnone]
      simp
    · rw [heq, hnone]
      simp
  · rw [WordRecased, wordCore, haffixes]
    refine ⟨k', ?_, rfl, heq⟩
    rcases hk' with rfl | ⟨hsmall, rfl⟩
    · rw [← hsame]
      exact (capitalized k₁).recased
    · exact recased_small hsmall

theorem transformWords_recased (n : Bool) : ∀ (previous : Option Str) (words : List (Str × Str)),
    List.Forall₂ (fun w w' => w'.1 = w.1 ∧ WordRecased w.2 w'.2) words (transformWords n previous words)
  | _, [] => .nil
  | _, (_, _) :: _ => .cons ⟨rfl, transformWord_recased _ _ _ _⟩ (transformWords_recased n _ _)

theorem capitalizeSection_recased (s : Str) : SectionRecased s (capitalizeSection s) :=
  ⟨(sectionWords_spec s).1, _, rfl, transformWords_recased _ _ _⟩

end

/-! ## The frame of punctuation -/

def isParen (c : Char) : Bool := c == '(' || c == ')'

/-- What is no letter or digit is copied, and between it the parentheses stay in their order. -/
inductive Framed : Str → Str → Prop where
  | nil : Framed [] []
  | copied {c : Char} {s t : Str} : c.isAlphanum = false → Framed s t → Framed (c :: s) (c :: t)
  | core {k k' s t : Str} : Bounded k → k'.filter isParen = k.filter isParen → Framed s t → Framed (k ++ s) (k' ++ t)

section
variable {s t s' t' w r k k' : Str} {c : Char}

theorem Framed.append (h : Framed s t) (h' : Framed s' t') : Framed (s ++ s') (t ++ t') := by
  induction h with
  | nil => exact h'
  | copied hc _ ih => exact .copied hc ih
  | core hk hparens _ ih =>
    rw [List.append_assoc, List.append_assoc]
    exact .core hk hparens ih

theorem Framed.copy : ∀ {s : Str}, NotAlphanum s → Framed s s
  | [], _ => .nil
  | _ :: _, h => .copied (h _ List.mem_cons_self) (Framed.copy fun c hc => h c (List.mem_cons_of_mem _ hc))

theorem Framed.filter (h : Framed s t) : t.filter isParen = s.filter isParen := by
  induction h with
  | nil => rfl
  | copied _ _ ih => rw [List.filter_cons, List.filter_cons, ih]
  | core _ hparens _ ih => rw [List.filter_append, List.filter_append, hparens, ih]

theorem Framed.head (h : Framed (c :: s) t) (hc : c.isAlphanum = false) : ∃ t', t = c :: t' ∧ Framed s t' := by
  generalize hcs : c :: s = u at h
  cases h with
  | nil => cases hcs
  | copied _ hst =>
    cases hcs
    exact ⟨_, rfl, hst⟩
  | core hk _ _ =>
    obtain ⟨d, v, rfl, hd⟩ := hk.head
    cases hcs
    rw [hc] at hd
    cases hd

theorem Framed.eq_nil (h : Framed [] t) : t = [] := by
  generalize hu : ([] : Str) = u at h
  cases h with
  | nil => rfl
  | copied => cases hu
  | core hk => exact absurd (List.append_eq_nil_iff.1 hu.symm).1 hk.ne_nil

theorem Framed.last (h : Framed (s ++ [c]) t) (hc : c.isAlphanum = false) : ∃ t', t = t' ++ [c] ∧ Framed s t' := by
  generalize hsc : s ++ [c] = u at h
  induction h generalizing s with
  | nil => simp at hsc
  | @copied d u v hd huv ih =>
    cases s with
    | nil =>
      cases hsc
      rw [huv.eq_nil]
      exact ⟨[], rfl, .nil⟩
    | cons e s =>
      cases hsc
      obtain ⟨t', rfl, ht'⟩ := ih rfl
      exact ⟨_ :: t', rfl, .copied hd ht'⟩
  | @core k k' u v hk hparens huv ih =>
    rcases List.eq_nil_or_concat u with rfl | ⟨u', d, rfl⟩
    · obtain ⟨v', d, rfl, hd⟩ := hk.last
      rw [List.append_nil] at hsc
      obtain ⟨-, heq⟩ := List.append_inj' hsc rfl
      cases heq
      rw [hc] at hd
      cases hd
    · rw [List.concat_eq_append, ← List.append_assoc] at hsc
      obtain ⟨rfl, hd⟩ := List.append_inj' hsc rfl
      cases hd
      obtain ⟨t', rfl, ht'⟩ := ih List.concat_eq_append.symm
      exact ⟨k' ++ t', (List.append_assoc _ _ _).symm, .core hk hparens ht'⟩

theorem isParen_notAlpha (h : isParen c = true) : c.isAlpha = false := by
  rw [isParen, Bool.or_eq_true, beq_iff_eq, beq_iff_eq] at h
  rcases h with rfl | rfl <;> rfl

/-- Parentheses have no case. -/
theorem filter_map_case {f : Char → Char} (halpha : ∀ c, (f c).isAlpha = c.isAlpha) (hsame : ∀ c, c.isAlpha = false → f c = c) (s : Str) :
    (s.map f).filter isParen = s.filter isParen := by
  induction s with
  | nil => rfl
  | cons c s ih =>
    cases hc : c.isAlpha with
    | false => rw [List.map_cons, hsame c hc, List.filter_cons, List.filter_cons, ih]
    | true =>
      have hnot : isParen c = false := by
        rw [← Bool.not_eq_true]
        intro h
        rw [isParen_notAlpha h] at hc
        cases hc
      have hnot' : isParen (f c) = false := by
        rw [← Bool.not_eq_true]
        intro h
        rw [← halpha, isParen_notAlpha h] at hc
        cases hc
      rw [List.map_cons, List.filter_cons_of_neg (by rw [hnot']; exact Bool.false_ne_true),
        List.filter_cons_of_neg (by rw [hnot]; exact Bool.false_ne_true), ih]

theorem filter_lower (s : Str) : (lower s).filter isParen = s.filter isParen := filter_map_case isAlpha_toLower (fun _ => toLower_of_not_isAlpha) s

theorem filter_upper (s : Str) : (upper s).filter isParen = s.filter isParen := filter_map_case isAlpha_toUpper (fun _ => toUpper_of_not_isAlpha) s

theorem filter_special {v : Str} (h : specialCase k = some v) : k.filter isParen = [] ∧ v.filter isParen = [] := by
  have hall : ∀ entry ∈ specialCases, entry.1.filter isParen = [] ∧ entry.2.filter isParen = [] := by decide
  exact hall _ (mem_specialCases h)

theorem Capitalized.filter (h : Capitalized w r) : r.filter isParen = w.filter isParen := by
  induction h with
  | nil => rfl
  | ampersand _ _ _ iha ihb => rw [List.filter_append, List.filter_append, List.filter_cons, List.filter_cons, iha, ihb]
  | special _ hspecial => rw [(filter_special hspecial).2, ← filter_lower, (filter_special hspecial).1]
  | dotted => exact filter_upper _
  | capitals => rfl
  | roman => exact filter_upper _
  | apostrophe _ _ _ iha => rw [List.filter_append, List.filter_append, iha]
  | hyphen _ _ _ _ _ iha ihb => rw [List.filter_append, List.filter_append, List.filter_cons, List.filter_cons, iha, ihb]
  | slash _ _ _ _ _ _ iha ihb => rw [List.filter_append, List.filter_append, List.filter_cons, List.filter_cons, iha, ihb]
  | @word w =>
    cases w with
    | nil => rfl
    | cons c s =>
      have hc := filter_upper [c]
      have hs := filter_lower s
      show ([c.toUpper] ++ lower s).filter isParen = ([c] ++ s).filter isParen
      rw [List.filter_append, List.filter_append, hs]
      exact congrArg (· ++ _) hc

theorem transformWord_framed (n : Bool) (previous : Option Str) (isLast : Bool) (w : Str) : Framed w (transformWord n previous isLast w) := by
  rcases transformWord_cases n previous isLast w with ⟨hnone, heq⟩ | ⟨p, k, q, k₁, k', rfl, hp, hk, hq, hsame, -, -, heq, hk'⟩
  · rw [heq]
    refine Framed.copy fun c hc => ?_
    have hfront : w.takeWhile (fun ch => !ch.isAlphanum) = w := congrArg Prod.fst hnone
    rw [← hfront] at hc
    simpa using List.mem_takeWhile_imp hc
  · rw [heq]
    refine (Framed.copy hp).append (.core hk ?_ (Framed.copy hq))
    rcases hk' with rfl | ⟨-, rfl⟩
    · rw [(capitalized k₁).filter, ← filter_lower k₁, hsame, filter_lower]
    · exact filter_lower k

theorem isAlphanum_of_isWhitespace (h : isWhitespace c = true) : c.isAlphanum = false := by
  rw [← Bool.not_eq_true, Char.isAlphanum, Bool.or_eq_true, isAlpha_iff]
  intro halnum
  have hdigit : c.isDigit = true → 48 ≤ c.toNat ∧ c.toNat ≤ 57 := by simp [Char.isDigit, UInt32.le_iff_toNat_le]
  simp only [isWhitespace, Bool.or_eq_true, Bool.and_eq_true, decide_eq_true_eq, beq_iff_eq] at h
  rcases halnum with halpha | hnum
  · omega
  · have hrange := hdigit hnum
    omega

theorem transformWords_framed (n : Bool) {tail : Str} (htail : Framed tail tail) : ∀ {isFirst : Bool} {previous : Option Str} {words : List (Str × Str)},
    Separated isFirst words → Framed (joinWords words tail) (joinWords (transformWords n previous words) tail)
  | _, _, [], _ => htail
  | _, previous, (gap, word) :: words, ⟨_, hgap, _, _, hrest⟩ => by
    have hjoin : ∀ (gap word : Str) (words : List (Str × Str)), joinWords ((gap, word) :: words) tail = gap ++ (word ++ joinWords words tail) := by
      intro gap word words
      simp only [joinWords, List.flatMap_cons, List.append_assoc]
    rw [transformWords, hjoin, hjoin]
    exact (Framed.copy fun c hc => isAlphanum_of_isWhitespace (hgap c hc)).append
      ((transformWord_framed _ _ _ _).append (transformWords_framed n htail hrest))

theorem capitalizeSection_framed (s : Str) : Framed s (capitalizeSection s) := by
  obtain ⟨hjoin, hsep, htail⟩ := sectionWords_spec s
  have hframed : Framed _ (joinWords (transformWords (isAllCaps s) none (sectionWords s).1) (sectionWords s).2) :=
    transformWords_framed (isAllCaps s) (Framed.copy fun c hc => isAlphanum_of_isWhitespace (htail c hc)) hsep
  rwa [hjoin] at hframed

end

/-! ## The sections of the result -/

section
variable {title before content after s t : Str}

theorem Framed.mem_paren (h : Framed s t) {x : Char} (hx : isParen x = true) : x ∈ t ↔ x ∈ s := by
  have hfilter := h.filter
  constructor
  · intro hmem
    exact List.mem_of_mem_filter (hfilter ▸ List.mem_filter.2 ⟨hmem, hx⟩)
  · intro hmem
    exact List.mem_of_mem_filter (hfilter.symm ▸ List.mem_filter.2 ⟨hmem, hx⟩)

/-- A parenthetical is an opening delimiter with a closing one somewhere behind it. -/
theorem findParenthetical_eq_none : findParenthetical title = none ↔ ¬ List.Sublist ['(', ')'] title := by
  constructor
  · intro hnone hsub
    obtain ⟨front, back, rfl, hopen, hclose⟩ := List.cons_sublist_iff.1 hsub
    rw [List.singleton_sublist] at hclose
    obtain ⟨a, b, hfront, ha⟩ := List.eq_append_cons_of_mem hopen
    obtain ⟨c, d, hback, hc⟩ := List.eq_append_cons_of_mem (List.mem_append_right b hclose)
    have hsome : findParenthetical (front ++ back) = some _ := findParenthetical_eq_some.2 ⟨by rw [hfront, List.append_assoc, List.cons_append, hback], ha, hc⟩
    rw [hnone] at hsome
    cases hsome
  · intro hnot
    cases hfind : findParenthetical title with
    | none => rfl
    | some found =>
      obtain ⟨before, content, after⟩ := found
      obtain ⟨rfl, -, -⟩ := findParenthetical_eq_some.1 hfind
      refine absurd ?_ hnot
      refine List.Sublist.trans ?_ (List.sublist_append_right before _)
      refine List.Sublist.cons_cons _ (List.singleton_sublist.2 ?_)
      exact List.mem_append_right _ List.mem_cons_self

theorem Framed.findParenthetical (h : Framed s t) (hnone : findParenthetical s = none) : Rename.findParenthetical t = none := by
  rw [findParenthetical_eq_none] at hnone ⊢
  intro hsub
  have hfiltered := hsub.filter isParen
  rw [h.filter] at hfiltered
  exact hnone (hfiltered.trans List.filter_sublist)

/-- The parenthetical stays one. -/
theorem capitalizeSection_parenthetical (hcontent : ')' ∉ content) : ∃ content', capitalizeSection ('(' :: (content ++ [')'])) =
    '(' :: (content' ++ [')']) ∧ ')' ∉ content' := by
  have hframed := capitalizeSection_framed ('(' :: (content ++ [')']))
  obtain ⟨t, ht, hrest⟩ := hframed.head rfl
  obtain ⟨content', rfl, hinner⟩ := hrest.last rfl
  exact ⟨content', ht, (hinner.mem_paren rfl).not.2 hcontent⟩

theorem titleSections_none (h : findParenthetical title = none) : titleSections title = [title] := by
  rw [titleSections]
  split
  · rfl
  · next hsome =>
    rw [h] at hsome
    cases hsome

theorem titleSections_some (h : findParenthetical title = some (before, content, after)) :
    titleSections title = before :: ('(' :: (content ++ [')'])) :: titleSections after := by
  rw [titleSections]
  split
  · next hnone =>
    rw [h] at hnone
    cases hnone
  · next hsome =>
    rw [h] at hsome
    cases hsome
    rfl

/-- The title is its sections. -/
theorem titleSections_flatten (title : Str) : (titleSections title).flatten = title := by
  induction title using titleSections.induct with
  | case1 title hnone =>
    rw [titleSections_none hnone]
    simp
  | case2 title before content after hfind ih =>
    rw [titleSections_some hfind]
    obtain ⟨rfl, -, -⟩ := findParenthetical_eq_some.1 hfind
    simp [ih]

/-- An empty parenthetical would be left alone as a section, too. -/
theorem capitalizeTitle_eq (title : Str) : capitalizeTitle title = (titleSections title).flatMap capitalizeSection := by
  induction title using titleSections.induct with
  | case1 title hnone =>
    rw [titleSections_none hnone, capitalizeTitle]
    split
    · simp
    · next hsome =>
      rw [hnone] at hsome
      cases hsome
  | case2 title before content after hfind ih =>
    rw [titleSections_some hfind, capitalizeTitle]
    split
    · next hnone =>
      rw [hfind] at hnone
      cases hnone
    · next hsome =>
      rw [hfind] at hsome
      cases hsome
      have hparen : (if ('(' :: (content ++ [')'])).length > 2 then capitalizeSection ('(' :: (content ++ [')'])) else '(' :: (content ++ [')'])) =
          capitalizeSection ('(' :: (content ++ [')'])) := by
        split_ifs with hlength
        · rfl
        · have hnil : content = [] := by
            rw [List.length_cons, List.length_append, List.length_singleton] at hlength
            exact List.length_eq_zero_iff.1 (by omega)
          rw [hnil]
          decide +kernel
      dsimp only
      rw [hparen, ih, List.flatMap_cons, List.flatMap_cons, List.append_assoc]

/-- The sections of the result are the results of the sections. -/
theorem titleSections_capitalizeTitle (title : Str) : titleSections (capitalizeTitle title) = (titleSections title).map capitalizeSection := by
  rw [capitalizeTitle_eq]
  induction title using titleSections.induct with
  | case1 title hnone =>
    rw [titleSections_none hnone]
    have hnone' := (capitalizeSection_framed title).findParenthetical hnone
    simp only [List.flatMap_cons, List.flatMap_nil, List.append_nil, List.map_cons, List.map_nil]
    exact titleSections_none hnone'
  | case2 title before content after hfind ih =>
    rw [titleSections_some hfind]
    obtain ⟨-, hbefore, hcontent⟩ := findParenthetical_eq_some.1 hfind
    obtain ⟨content', hparen, hcontent'⟩ := capitalizeSection_parenthetical hcontent
    have hbefore' : '(' ∉ capitalizeSection before := ((capitalizeSection_framed before).mem_paren rfl).not.2 hbefore
    rw [List.flatMap_cons, List.flatMap_cons, List.map_cons, List.map_cons, hparen]
    have hfind' : findParenthetical (capitalizeSection before ++ ('(' :: (content' ++ [')']) ++ (titleSections after).flatMap capitalizeSection)) =
        some (capitalizeSection before, content', (titleSections after).flatMap capitalizeSection) :=
      findParenthetical_eq_some.2 ⟨by simp, hbefore', hcontent'⟩
    rw [titleSections_some hfind', ih]

end

/-! ## The whole title -/

theorem capitalizeTitle_recased (title : Str) : TitleRecased title (capitalizeTitle title) := by
  refine ⟨titleSections_flatten title, (titleSections title).map capitalizeSection, ?_, ?_⟩
  · rw [capitalizeTitle_eq, List.flatMap_def]
  · rw [List.forall₂_map_right_iff]
    exact List.forall₂_same.2 fun s _ => capitalizeSection_recased s

instance (part : Str) : Decidable (KeptWhole part) := inferInstanceAs (Decidable (_ ∨ _))

instance (core : Str) : Decidable (KeptParts core) := inferInstanceAs (Decidable (∀ part ∈ core.splitOn '&', KeptWhole part))

instance (sect : Str) : Decidable (SectionSettles sect) :=
  decidable_of_iff ((isAllCaps (capitalizeSection sect) = true → isAllCaps sect = true) ∧
    ∀ w ∈ (sectionWords sect).1, KeptParts (wordCore (normalizeWord (isAllCaps sect) w.2)))
    ⟨fun h => ⟨h.1, h.2⟩, fun h => ⟨h.capitals, h.words⟩⟩

example : capitalizeTitle "ACDC/V".toList = "AC/DC/V".toList ∧ capitalizeTitle "AC/DC/V".toList = "Ac/DC/V".toList := by decide +kernel

end Rename
