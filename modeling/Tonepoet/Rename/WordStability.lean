import Mathlib.Data.List.DropRight
import Tonepoet.Rename.WordCase

/-!
# Words once more

A word keeps the affixes it has, and what is cut off a spelling at its end (the dot of `R.E.M.`) joins the punctuation behind it.
-/

namespace Rename

open Rust AsciiCase

def NotAlphanum (s : Str) : Prop := ∀ c ∈ s, c.isAlphanum = false

/-- The core of what a word has become: without the punctuation at its end. -/
def trimCore (s : Str) : Str := s.rdropWhile fun ch => !ch.isAlphanum

/-- The part between two ampersands is an entry of the table, or it is changed in case only. -/
def KeptWhole (part : Str) : Prop := (specialCase (lower part)).isSome ∨ lower (capitalizeWordCore part) = lower part

/-- No component is respelled inside a part. -/
def KeptParts (core : Str) : Prop := ∀ part ∈ core.splitOn '&', KeptWhole part

section
variable {w r a b p k q : Str}

theorem isAlphanum_toLower (c : Char) : c.toLower.isAlphanum = c.isAlphanum := by
  cases hc : c.isAlpha with
  | true => rw [Char.isAlphanum, Char.isAlphanum, isAlpha_toLower, hc, Bool.true_or, Bool.true_or]
  | false => rw [toLower_of_not_isAlpha hc]

theorem isAlphanum_toUpper (c : Char) : c.toUpper.isAlphanum = c.isAlphanum := by
  rw [← isAlphanum_toLower, toLower_toUpper, isAlphanum_toLower]

/-- What is true of every character, whatever its case, is true of every character afterwards. -/
theorem Capitalized.forall_mem {P : Char → Prop} (hlower : ∀ c, P c → P c.toLower) (hupper : ∀ c, P c → P c.toUpper)
    (htable : ∀ k v, specialCase k = some v → ∀ c ∈ v, P c) (h : Capitalized w r) : (∀ c ∈ w, P c) → ∀ c ∈ r, P c := by
  have hup : ∀ s : Str, (∀ c ∈ s, P c) → ∀ c ∈ upper s, P c := by
    intro s hs c hc
    obtain ⟨d, hd, rfl⟩ := List.mem_map.1 hc
    exact hupper d (hs d hd)
  have hlow : ∀ s : Str, (∀ c ∈ s, P c) → ∀ c ∈ lower s, P c := by
    intro s hs c hc
    obtain ⟨d, hd, rfl⟩ := List.mem_map.1 hc
    exact hlower d (hs d hd)
  induction h with
  | nil => exact fun h => h
  | special _ hspecial => exact fun _ => htable _ _ hspecial
  | dotted => exact hup _
  | capitals => exact fun h => h
  | roman => exact hup _
  | ampersand _ _ _ iha ihb =>
    intro hw
    rw [List.forall_mem_append, List.forall_mem_cons] at hw ⊢
    exact ⟨iha hw.1, hw.2.1, ihb hw.2.2⟩
  | apostrophe _ _ _ iha =>
    intro hw
    rw [List.forall_mem_append] at hw ⊢
    exact ⟨iha hw.1, hw.2⟩
  | hyphen _ _ _ _ _ iha ihb =>
    intro hw
    rw [List.forall_mem_append, List.forall_mem_cons] at hw ⊢
    exact ⟨iha hw.1, hw.2.1, ihb hw.2.2⟩
  | slash _ _ _ _ _ _ iha ihb =>
    intro hw
    rw [List.forall_mem_append, List.forall_mem_cons] at hw ⊢
    exact ⟨iha hw.1, hw.2.1, ihb hw.2.2⟩
  | @word w =>
    intro hw
    cases w with
    | nil => exact hw
    | cons c s =>
      rw [List.forall_mem_cons] at hw
      rw [capitalizeFirst, List.forall_mem_cons]
      exact ⟨hupper c hw.1, hlow s hw.2⟩

theorem ampersand_notMem (h : '&' ∉ w) : '&' ∉ capitalizeWordCore w := by
  have hall := (capitalized w).forall_mem (P := fun c => c ≠ '&') (fun c hc h => hc ((toLower_eq_iff rfl).1 h))
    (fun c hc h => hc ((toLower_eq_iff rfl).1 (by rw [← toLower_toUpper, h]; rfl)))
    (fun k v hspecial c hc heq => (entryFacts hspecial).ampersand (heq ▸ hc)) fun c hc heq => h (heq ▸ hc)
  exact fun hmem => hall _ hmem rfl

/-- A word that starts with a letter or a digit does so afterwards. -/
theorem Capitalized.head (h : Capitalized w r) : (∃ c s, w = c :: s ∧ c.isAlphanum = true) → ∃ c s, r = c :: s ∧ c.isAlphanum = true := by
  have hcons : ∀ {a a' b b' : Str} {x : Char}, x.isAlphanum = false →
      ((∃ c s, a = c :: s ∧ c.isAlphanum = true) → ∃ c s, a' = c :: s ∧ c.isAlphanum = true) →
      (∃ c s, a ++ x :: b = c :: s ∧ c.isAlphanum = true) → ∃ c s, a' ++ x :: b' = c :: s ∧ c.isAlphanum = true := by
    rintro a a' b b' x hx ih ⟨c, s, heq, hc⟩
    cases a with
    | nil =>
      cases heq
      rw [hx] at hc
      cases hc
    | cons d a =>
      cases heq
      obtain ⟨c', s', rfl, hc'⟩ := ih ⟨_, _, rfl, hc⟩
      exact ⟨c', _, rfl, hc'⟩
  induction h with
  | nil => exact fun h => h
  | ampersand _ _ _ iha _ => exact hcons rfl iha
  | special _ hspecial => exact fun _ => (entryFacts hspecial).head
  | dotted =>
    rintro ⟨c, s, rfl, hc⟩
    exact ⟨_, _, rfl, (isAlphanum_toUpper c).trans hc⟩
  | capitals => exact fun h => h
  | roman =>
    rintro ⟨c, s, rfl, hc⟩
    exact ⟨_, _, rfl, (isAlphanum_toUpper c).trans hc⟩
  | apostrophe _ _ _ iha => exact hcons rfl iha
  | hyphen _ _ _ _ _ iha _ => exact hcons rfl iha
  | slash _ _ _ _ _ _ iha _ => exact hcons rfl iha
  | word =>
    rintro ⟨c, s, rfl, hc⟩
    exact ⟨_, _, rfl, (isAlphanum_toUpper c).trans hc⟩

/-! ## Trimming at the end -/

theorem trimCore_concat {s : Str} {c : Char} (hc : c.isAlphanum = true) : trimCore (s ++ [c]) = s ++ [c] := by
  rw [trimCore, List.rdropWhile_concat_neg _ _ _ (by simp [hc])]

theorem trimCore_append (h : trimCore b ≠ []) : trimCore (a ++ b) = a ++ trimCore b := by
  induction b using List.reverseRecOn with
  | nil => exact absurd rfl h
  | append_singleton b c ih =>
    rw [← List.append_assoc]
    unfold trimCore at h ih ⊢
    cases hc : c.isAlphanum with
    | true => rw [List.rdropWhile_concat_neg _ _ _ (by simp [hc]), List.rdropWhile_concat_neg _ _ _ (by simp [hc]), List.append_assoc]
    | false =>
      rw [List.rdropWhile_concat_pos _ _ _ (by simp [hc])] at h
      rw [List.rdropWhile_concat_pos _ _ _ (by simp [hc]), List.rdropWhile_concat_pos _ _ _ (by simp [hc]), ih h]

theorem trimCore_append_notAlphanum (hq : NotAlphanum q) : trimCore (k ++ q) = trimCore k := by
  induction q using List.reverseRecOn with
  | nil => rw [List.append_nil]
  | append_singleton q c ih =>
    have hc : c.isAlphanum = false := hq c (by simp)
    rw [← List.append_assoc, trimCore, List.rdropWhile_concat_pos _ _ _ (by simp [hc])]
    exact ih fun d hd => hq d (List.mem_append_left _ hd)

/-! ## The affixes -/

theorem wordAffixes_append (hp : NotAlphanum p) (hk : ∃ c s, k = c :: s ∧ c.isAlphanum = true) :
    wordAffixes (p ++ k) = (p, trimCore k, k.rtakeWhile fun ch => !ch.isAlphanum) := by
  obtain ⟨c, s, rfl, hc⟩ := hk
  have hdrop : (p ++ c :: s).dropWhile (fun ch => !ch.isAlphanum) = c :: s := by
    rw [List.dropWhile_append_of_pos (fun x hx => by simp [hp x hx]), List.dropWhile_cons_of_neg (by simp [hc])]
  have htake : (p ++ c :: s).takeWhile (fun ch => !ch.isAlphanum) = p := by
    rw [List.takeWhile_append_of_pos (fun x hx => by simp [hp x hx]), List.takeWhile_cons_of_neg (by simp [hc]), List.append_nil]
  rw [wordAffixes, hdrop, htake]
  rfl

/-- The affixes of what a word has become: the core ends where its last letter or digit does. -/
theorem wordAffixes_changed (hp : NotAlphanum p) (hk : ∃ c s, k = c :: s ∧ c.isAlphanum = true) (hq : NotAlphanum q) :
    ∃ back, wordAffixes (p ++ (k ++ q)) = (p, trimCore k, back) ∧ trimCore k ++ back = k ++ q ∧ NotAlphanum back := by
  have hhead : ∃ c s, k ++ q = c :: s ∧ c.isAlphanum = true := by
    obtain ⟨c, s, rfl, hc⟩ := hk
    exact ⟨c, s ++ q, rfl, hc⟩
  refine ⟨_, (wordAffixes_append hp hhead).trans (by rw [trimCore_append_notAlphanum hq]), ?_, ?_⟩
  · rw [← trimCore_append_notAlphanum hq, trimCore, List.rdropWhile, List.rtakeWhile, ← List.reverse_append,
      List.takeWhile_append_dropWhile, List.reverse_reverse]
  · intro c hc
    have htrue := List.mem_rtakeWhile_imp hc
    simpa using htrue

/-- The word's core starts and ends with a letter or a digit. -/
structure Bounded (core : Str) : Prop where
  head : ∃ c s, core = c :: s ∧ c.isAlphanum = true
  last : ∃ s c, core = s ++ [c] ∧ c.isAlphanum = true

theorem Bounded.ne_nil (h : Bounded k) : k ≠ [] := by
  obtain ⟨c, s, rfl, -⟩ := h.head
  exact List.cons_ne_nil c s

theorem Bounded.lower (h : Bounded k) : Bounded (lower k) := by
  obtain ⟨⟨c, s, hhead, hc⟩, ⟨t, d, hlast, hd⟩⟩ := h
  refine ⟨⟨c.toLower, AsciiCase.lower s, ?_, (isAlphanum_toLower c).trans hc⟩, ⟨AsciiCase.lower t, d.toLower, ?_, (isAlphanum_toLower d).trans hd⟩⟩
  · rw [hhead, lower_cons]
  · rw [hlast, lower_append]
    rfl

theorem Bounded.trimCore (h : Bounded k) : trimCore k = k := by
  obtain ⟨s, c, rfl, hc⟩ := h.last
  exact trimCore_concat hc

theorem wordAffixes_exact (hp : NotAlphanum p) (hk : Bounded k) (hq : NotAlphanum q) : wordAffixes (p ++ (k ++ q)) = (p, k, q) := by
  obtain ⟨back, haffixes, heq, -⟩ := wordAffixes_changed hp hk.head hq
  rw [hk.trimCore] at haffixes heq
  rw [haffixes, List.append_cancel_left heq]

/-- What ends with a letter or a digit when it starts with one. -/
theorem trimCore_bounded (h : ∃ c s, k = c :: s ∧ c.isAlphanum = true) : Bounded (trimCore k) := by
  have hne : trimCore k ≠ [] := by
    obtain ⟨c, s, rfl, hc⟩ := h
    intro hnil
    have hall := List.rdropWhile_eq_nil_iff.1 hnil c List.mem_cons_self
    rw [hc] at hall
    cases hall
  have hlast := List.rdropWhile_last_not _ _ hne
  have hprefix : trimCore k <+: k := List.rdropWhile_prefix _ _
  constructor
  · obtain ⟨c, s, rfl, hc⟩ := h
    obtain ⟨t, ht⟩ := hprefix
    cases htrim : trimCore (c :: s) with
    | nil => exact absurd htrim hne
    | cons d u =>
      rw [htrim] at ht
      cases ht
      exact ⟨c, u, rfl, hc⟩
  · exact ⟨_, _, (List.dropLast_append_getLast hne).symm, by simpa [trimCore] using hlast⟩

/-- A word is its affixes around its core; a word without a letter or a digit has no core. -/
theorem wordAffixes_cases (w : Str) : wordAffixes w = (w, [], []) ∨ ∃ p k q, w = p ++ (k ++ q) ∧ NotAlphanum p ∧ Bounded k ∧ NotAlphanum q := by
  have hfront : NotAlphanum (w.takeWhile fun ch => !ch.isAlphanum) := by
    intro c hc
    simpa using List.mem_takeWhile_imp hc
  have hsplit := List.takeWhile_append_dropWhile (p := fun ch : Char => !ch.isAlphanum) (l := w)
  cases hcore : w.dropWhile (fun ch => !ch.isAlphanum) with
  | nil =>
    left
    rw [hcore, List.append_nil] at hsplit
    rw [wordAffixes, hcore, hsplit]
    rfl
  | cons c s =>
    right
    have hc : c.isAlphanum = true := by
      have hnot := List.head_dropWhile_not (fun ch : Char => !ch.isAlphanum) (l := w) (by rw [hcore]; exact List.cons_ne_nil _ _)
      simp only [hcore, List.head_cons] at hnot
      simpa using hnot
    obtain ⟨back, -, heq, hback⟩ := wordAffixes_changed (p := []) (q := []) (fun _ h => absurd h List.not_mem_nil)
      ⟨c, s, rfl, hc⟩ (fun _ h => absurd h List.not_mem_nil)
    rw [List.append_nil] at heq
    exact ⟨_, _, back, by rw [heq, ← hcore, hsplit], hfront, trimCore_bounded ⟨c, s, rfl, hc⟩, hback⟩

/-! ## A core once more -/

/-- What the core has become, read again as it is and read again in lower case. -/
structure Restored (core : Str) : Prop where
  ne_nil : trimCore (capitalizeWordCore core) ≠ []
  again : capitalizeWordCore (trimCore (capitalizeWordCore core)) = trimCore (capitalizeWordCore core)
  fromLower : lower core = core → capitalizeWordCore (lower (trimCore (capitalizeWordCore core))) = trimCore (capitalizeWordCore core)
  small : lower (trimCore (capitalizeWordCore core)) ∈ nonCapitalizedWords → lower core ∈ nonCapitalizedWords

/-- A spelling without the dot at its end is kept as well, and it is no small word. -/
theorem trimmedSpelling {k v : Str} (h : specialCase k = some v) : trimCore v ≠ [] ∧ capitalizeWordCore (trimCore v) = trimCore v ∧
    capitalizeWordCore (lower (trimCore v)) = trimCore v ∧ lower (trimCore v) ∉ nonCapitalizedWords := by
  have hall : ∀ entry ∈ specialCases, trimCore entry.2 ≠ [] ∧ capitalizeWordCore (trimCore entry.2) = trimCore entry.2 ∧
      capitalizeWordCore (lower (trimCore entry.2)) = trimCore entry.2 ∧ lower (trimCore entry.2) ∉ nonCapitalizedWords := by decide +kernel
  exact hall _ (mem_specialCases h)

/-- A part that is kept whole is kept the next time, also when it is read in lower case. -/
theorem KeptWhole.again (h : KeptWhole a) (hand : '&' ∉ a) : capitalizeWordCore (capitalizeWordCore a) = capitalizeWordCore a ∧
    (lower a = a → capitalizeWordCore (lower (capitalizeWordCore a)) = capitalizeWordCore a) := by
  cases hspecial : specialCase (lower a) with
  | some v =>
    have heq := capitalizeWordCore_special hand hspecial
    have hfacts := entryFacts hspecial
    rw [heq]
    refine ⟨capitalizeWordCore_spelling hspecial, fun _ => capitalizeWordCore_special ?_ (by rw [lower_lower]; exact hfacts.again)⟩
    exact (mem_lower_iff rfl).not.2 hfacts.ampersand
  | none =>
    have hcase : lower (capitalizeWordCore a) = lower a := by
      rcases h with h | h
      · rw [hspecial] at h
        cases h
      · exact h
    exact ⟨(capitalized a).again hand hcase, fun hlow => by rw [hcase, hlow]⟩

theorem restored_of_part (h : KeptWhole w) (hand : '&' ∉ w) (hlast : ∃ s c, w = s ++ [c] ∧ c.isAlphanum = true) : Restored w := by
  obtain ⟨hagain, hlower⟩ := h.again hand
  cases hspecial : specialCase (lower w) with
  | some v =>
    have heq := capitalizeWordCore_special hand hspecial
    obtain ⟨hne, htrim, htrimLower, hsmall⟩ := trimmedSpelling hspecial
    constructor
    · rwa [heq]
    · rwa [heq]
    · rw [heq]
      exact fun _ => htrimLower
    · rw [heq]
      exact fun hmem => absurd hmem hsmall
  | none =>
    have hcase : lower (capitalizeWordCore w) = lower w := by
      rcases h with h | h
      · rw [hspecial] at h
        cases h
      · exact h
    have htrim : trimCore (capitalizeWordCore w) = capitalizeWordCore w := by
      obtain ⟨s, c, rfl, hc⟩ := hlast
      generalize capitalizeWordCore (s ++ [c]) = r at hcase ⊢
      rcases List.eq_nil_or_concat r with rfl | ⟨t, d, rfl⟩
      · simp at hcase
      · rw [List.concat_eq_append] at hcase ⊢
        rw [lower_append, lower_append] at hcase
        have hd := List.append_inj_right' hcase rfl
        have hd : d.toLower = c.toLower := (List.cons.inj hd).1
        exact trimCore_concat (by rw [← isAlphanum_toLower, hd, isAlphanum_toLower, hc])
    have hne : capitalizeWordCore w ≠ [] := by
      intro hnil
      obtain ⟨s, c, rfl, -⟩ := hlast
      rw [hnil] at hcase
      simp at hcase
    constructor
    · rwa [htrim]
    · rwa [htrim]
    · rwa [htrim]
    · rw [htrim, hcase]
      exact fun hmem => hmem

/-- **A core once more**: the parts between the ampersands in turn. -/
theorem restored (hkept : KeptParts w) (hlast : ∃ s c, w = s ++ [c] ∧ c.isAlphanum = true) : Restored w := by
  induction hn : w.length using Nat.strong_induction_on generalizing w with
  | _ n ih =>
    cases hsplit : splitOnce '&' w with
    | none =>
      have hand := splitOnce_eq_none.1 hsplit
      have hwhole := hkept w (by rw [List.splitOn_eq_singleton hand]; exact List.mem_singleton_self w)
      exact restored_of_part hwhole hand hlast
    | some pieces =>
      obtain ⟨a, b⟩ := pieces
      have heq := capitalizeWordCore_ampersand hsplit
      obtain ⟨rfl, ha⟩ := splitOnce_eq_some.1 hsplit
      rw [KeptParts, List.splitOn_append_cons_self_of_not_mem ha, List.forall_mem_cons] at hkept
      obtain ⟨hwhole, hrest⟩ := hkept
      obtain ⟨hagain, hlower⟩ := hwhole.again ha
      have hlast' : ∃ s c, b = s ++ [c] ∧ c.isAlphanum = true := by
        obtain ⟨s, c, hs, hc⟩ := hlast
        rcases List.eq_nil_or_concat b with rfl | ⟨t, d, rfl⟩
        · obtain ⟨-, hd⟩ := List.append_inj' hs rfl
          cases hd
          cases hc
        · rw [List.concat_eq_append, ← List.cons_append, ← List.append_assoc] at hs
          obtain ⟨-, hd⟩ := List.append_inj' hs rfl
          cases hd
          exact ⟨_, _, List.concat_eq_append, hc⟩
      have hb := ih b.length (by rw [← hn, List.length_append, List.length_cons]; omega) hrest hlast' rfl
      have htrim : trimCore (capitalizeWordCore (a ++ '&' :: b)) = capitalizeWordCore a ++ '&' :: trimCore (capitalizeWordCore b) := by
        rw [heq, List.append_cons, trimCore_append hb.ne_nil, ← List.append_cons]
      have hmem := ampersand_notMem ha
      constructor
      · rw [htrim]
        simp
      · rw [htrim, capitalizeWordCore_ampersand (splitOnce_append hmem), hagain, hb.again]
      · intro hlow
        rw [lower_append, lower_cons] at hlow
        obtain ⟨hla, hlb⟩ := List.append_inj hlow (length_lower a)
        rw [htrim, lower_append, lower_cons]
        rw [show Char.toLower '&' = '&' from rfl, capitalizeWordCore_ampersand (splitOnce_append ((mem_lower_iff rfl).not.2 hmem)), hlower hla,
          hb.fromLower (List.cons.inj hlb).2]
      · rw [htrim]
        intro hsmall
        have hampersand : '&' ∈ lower (capitalizeWordCore a ++ '&' :: trimCore (capitalizeWordCore b)) :=
          (mem_lower_iff rfl).2 (List.mem_append_right _ List.mem_cons_self)
        exact absurd hampersand ((show ∀ word ∈ nonCapitalizedWords, '&' ∉ word by decide) _ hsmall)

end

end Rename
