import Tonepoet.Rename.TitleCase

/-!
# The rules for a word

The rules `capitalize_word_core` goes through, each with what has failed before it, as a relation to argue by.
-/

namespace Rename

open Rust AsciiCase

/-- The word is one component for the table, and is not in it. -/
structure Plain (word : Str) : Prop where
  ne_nil : word ≠ []
  ampersand : '&' ∉ word
  special : specialCase (lower word) = none

/-- No rule for whole words applies. -/
structure Ordinary (word : Str) : Prop extends Plain word where
  dotted : (hasLetterDotPattern word && 2 ≤ letterCount word) = false
  capitals : isShortCapitals word = false
  roman : isRomanNumeral (upper word) = false

inductive Capitalized : Str → Str → Prop where
  | nil : Capitalized [] []
  | ampersand {a b a' b' : Str} : '&' ∉ a → Capitalized a a' → Capitalized b b' → Capitalized (a ++ '&' :: b) (a' ++ '&' :: b')
  | special {w v : Str} : '&' ∉ w → specialCase (lower w) = some v → Capitalized w v
  | dotted {w : Str} : Plain w → (hasLetterDotPattern w && 2 ≤ letterCount w) = true → Capitalized w (upper w)
  | capitals {w : Str} : Plain w → (hasLetterDotPattern w && 2 ≤ letterCount w) = false → isShortCapitals w = true → Capitalized w w
  | roman {w : Str} : Plain w → (hasLetterDotPattern w && 2 ≤ letterCount w) = false → isShortCapitals w = false →
      isRomanNumeral (upper w) = true → Capitalized w (upper w)
  | apostrophe {a b a' : Str} : Ordinary (a ++ '\'' :: b) → '\'' ∉ a → Capitalized a a' → Capitalized (a ++ '\'' :: b) (a' ++ '\'' :: b)
  | hyphen {a b a' b' : Str} : Ordinary (a ++ '-' :: b) → '\'' ∉ a ++ '-' :: b → '-' ∉ a → Capitalized a a' → Capitalized b b' →
      Capitalized (a ++ '-' :: b) (a' ++ '-' :: b')
  | slash {a b a' b' : Str} : Ordinary (a ++ '/' :: b) → '\'' ∉ a ++ '/' :: b → '-' ∉ a ++ '/' :: b → '/' ∉ a → Capitalized a a' →
      Capitalized b b' → Capitalized (a ++ '/' :: b) (a' ++ '/' :: b')
  | word {w : Str} : Ordinary w → '\'' ∉ w → '-' ∉ w → '/' ∉ w → Capitalized w (capitalizeFirst w)

theorem special_nil : specialCase [] = none := by decide

section
variable {w a b : Str}

theorem capitalizeWordCore_ampersand (h : splitOnce '&' w = some (a, b)) :
    capitalizeWordCore w = capitalizeWordCore a ++ '&' :: capitalizeWordCore b := by
  have hne : w ≠ [] := by
    rintro rfl
    cases h
  rw [capitalizeWordCore, if_neg hne]
  split
  · next h' =>
    rw [h'] at h
    cases h
    rfl
  · next h' =>
    rw [h'] at h
    cases h

theorem capitalizeWordCore_special {v : Str} (h : '&' ∉ w) (hspecial : specialCase (lower w) = some v) : capitalizeWordCore w = v := by
  have hne : w ≠ [] := by
    rintro rfl
    cases hspecial
  rw [capitalizeWordCore, if_neg hne]
  split
  · next h' => exact absurd (splitOnce_eq_none.2 h) (by rw [h']; exact Option.some_ne_none _)
  · rw [hspecial]

/-- The rules for a word that is not in the table. -/
theorem capitalizeWordCore_of_plain (h : Plain w) : capitalizeWordCore w =
    if hasLetterDotPattern w && 2 ≤ letterCount w then upper w
    else if isShortCapitals w then w
    else if isRomanNumeral (upper w) then upper w
    else match splitOnce '\'' w with
    | some (first, rest) => capitalizeWordCore first ++ '\'' :: rest
    | none =>
      match splitOnce '-' w with
      | some (first, afterHyphen) => capitalizeWordCore first ++ '-' :: capitalizeWordCore afterHyphen
      | none =>
        match splitOnce '/' w with
        | some (first, afterSlash) => capitalizeWordCore first ++ '/' :: capitalizeWordCore afterSlash
        | none => capitalizeFirst w := by
  rw [capitalizeWordCore, if_neg h.ne_nil]
  split
  · next h' => exact absurd (splitOnce_eq_none.2 h.ampersand) (by rw [h']; exact Option.some_ne_none _)
  · rw [h.special]
    dsimp only
    split_ifs
    · rfl
    · rfl
    · rfl
    · split
      · next happos => rw [happos]
      · next happos =>
        rw [happos]
        dsimp only
        split
        · next hhyphen => rw [hhyphen]
        · next hhyphen =>
          rw [hhyphen]
          dsimp only
          split
          · next hslash => rw [hslash]
          · next hslash => rw [hslash]

end

/-- The function follows the rules. -/
theorem capitalized (w : Str) : Capitalized w (capitalizeWordCore w) := by
  induction w using capitalizeWordCore.induct with
  | case1 =>
    rw [capitalizeWordCore, if_pos rfl]
    exact .nil
  | case2 w hne a b hand iha ihb =>
    rw [capitalizeWordCore_ampersand hand]
    obtain ⟨rfl, ha⟩ := splitOnce_eq_some.1 hand
    exact .ampersand ha iha ihb
  | case3 w hne hand v hspecial =>
    rw [capitalizeWordCore_special (splitOnce_eq_none.1 hand) hspecial]
    exact .special (splitOnce_eq_none.1 hand) hspecial
  | case4 w hne hand hspecial hdotted =>
    have hplain : Plain w := ⟨hne, splitOnce_eq_none.1 hand, hspecial⟩
    rw [capitalizeWordCore_of_plain hplain, if_pos hdotted]
    exact .dotted hplain hdotted
  | case5 w hne hand hspecial hdotted hcapitals =>
    have hplain : Plain w := ⟨hne, splitOnce_eq_none.1 hand, hspecial⟩
    rw [capitalizeWordCore_of_plain hplain, if_neg hdotted, if_pos hcapitals]
    exact .capitals hplain (Bool.not_eq_true _ ▸ hdotted) hcapitals
  | case6 w hne hand hspecial hdotted hcapitals hroman =>
    have hplain : Plain w := ⟨hne, splitOnce_eq_none.1 hand, hspecial⟩
    rw [capitalizeWordCore_of_plain hplain, if_neg hdotted, if_neg hcapitals, if_pos hroman]
    exact .roman hplain (Bool.not_eq_true _ ▸ hdotted) (Bool.not_eq_true _ ▸ hcapitals) hroman
  | case7 w hne hand hspecial hdotted hcapitals hroman a b happos iha =>
    have hordinary : Ordinary w := ⟨⟨hne, splitOnce_eq_none.1 hand, hspecial⟩, Bool.not_eq_true _ ▸ hdotted, Bool.not_eq_true _ ▸ hcapitals,
      Bool.not_eq_true _ ▸ hroman⟩
    rw [capitalizeWordCore_of_plain hordinary.toPlain, if_neg hdotted, if_neg hcapitals, if_neg hroman, happos]
    obtain ⟨rfl, ha⟩ := splitOnce_eq_some.1 happos
    exact .apostrophe hordinary ha iha
  | case8 w hne hand hspecial hdotted hcapitals hroman happos a b hhyphen iha ihb =>
    have hordinary : Ordinary w := ⟨⟨hne, splitOnce_eq_none.1 hand, hspecial⟩, Bool.not_eq_true _ ▸ hdotted, Bool.not_eq_true _ ▸ hcapitals,
      Bool.not_eq_true _ ▸ hroman⟩
    rw [capitalizeWordCore_of_plain hordinary.toPlain, if_neg hdotted, if_neg hcapitals, if_neg hroman, happos, hhyphen]
    obtain ⟨rfl, ha⟩ := splitOnce_eq_some.1 hhyphen
    exact .hyphen hordinary (splitOnce_eq_none.1 happos) ha iha ihb
  | case9 w hne hand hspecial hdotted hcapitals hroman happos hhyphen a b hslash iha ihb =>
    have hordinary : Ordinary w := ⟨⟨hne, splitOnce_eq_none.1 hand, hspecial⟩, Bool.not_eq_true _ ▸ hdotted, Bool.not_eq_true _ ▸ hcapitals,
      Bool.not_eq_true _ ▸ hroman⟩
    rw [capitalizeWordCore_of_plain hordinary.toPlain, if_neg hdotted, if_neg hcapitals, if_neg hroman, happos, hhyphen, hslash]
    obtain ⟨rfl, ha⟩ := splitOnce_eq_some.1 hslash
    exact .slash hordinary (splitOnce_eq_none.1 happos) (splitOnce_eq_none.1 hhyphen) ha iha ihb
  | case10 w hne hand hspecial hdotted hcapitals hroman happos hhyphen hslash =>
    have hordinary : Ordinary w := ⟨⟨hne, splitOnce_eq_none.1 hand, hspecial⟩, Bool.not_eq_true _ ▸ hdotted, Bool.not_eq_true _ ▸ hcapitals,
      Bool.not_eq_true _ ▸ hroman⟩
    rw [capitalizeWordCore_of_plain hordinary.toPlain, if_neg hdotted, if_neg hcapitals, if_neg hroman, happos, hhyphen, hslash]
    exact .word hordinary (splitOnce_eq_none.1 happos) (splitOnce_eq_none.1 hhyphen) (splitOnce_eq_none.1 hslash)

/-! ## The table -/

section
variable {k v : Str}

theorem mem_specialCases (h : specialCase k = some v) : (k, v) ∈ specialCases := by
  rw [specialCase] at h
  generalize specialCases = table at h ⊢
  induction table with
  | nil => cases h
  | cons entry entries ih =>
    rw [List.lookup_cons] at h
    split at h
    · next heq =>
      cases h
      rw [beq_iff_eq.1 heq]
      exact List.mem_cons_self
    · exact List.mem_cons_of_mem _ (ih h)

/-- What holds of every entry. -/
structure EntryFacts (entry : Str × Str) : Prop where
  length : entry.1.length ≤ entry.2.length
  ampersand : '&' ∉ entry.2
  again : specialCase (lower entry.2) = some entry.2
  plainText : ∀ c ∈ entry.2, isWhitespace c = false ∧ c ≠ '(' ∧ c ≠ ')'
  head : ∃ c s, entry.2 = c :: s ∧ c.isAlphanum = true

instance (entry : Str × Str) : Decidable (∃ c s, entry.2 = c :: s ∧ c.isAlphanum = true) :=
  decidable_of_iff (entry.2.head?.any Char.isAlphanum = true) <| by
    cases entry.2 with
    | nil => simp
    | cons c s => simp

theorem entryFacts (h : specialCase k = some v) : EntryFacts (k, v) := by
  have hmem := mem_specialCases h
  have hall : ∀ entry ∈ specialCases, entry.1.length ≤ entry.2.length ∧ '&' ∉ entry.2 ∧ specialCase (lower entry.2) = some entry.2 ∧
      (∀ c ∈ entry.2, isWhitespace c = false ∧ c ≠ '(' ∧ c ≠ ')') ∧ ∃ c s, entry.2 = c :: s ∧ c.isAlphanum = true := by decide +kernel
  obtain ⟨hlength, hampersand, hagain, hplain, hhead⟩ := hall _ hmem
  exact ⟨hlength, hampersand, hagain, hplain, hhead⟩

/-- A spelling of the table is kept. -/
theorem capitalizeWordCore_spelling (h : specialCase k = some v) : capitalizeWordCore v = v :=
  capitalizeWordCore_special (entryFacts h).ampersand (entryFacts h).again

end

/-! ## Once more -/

section
variable {w r : Str}

theorem hasLetterDotPattern_lower : ∀ w : Str, hasLetterDotPattern (lower w) = hasLetterDotPattern w
  | [] => rfl
  | [_] => rfl
  | a :: b :: s => by
    have hdot : (b.toLower == '.') = (b == '.') := by
      rw [Bool.eq_iff_iff, beq_iff_eq, beq_iff_eq]
      exact toLower_eq_iff rfl
    have ih := hasLetterDotPattern_lower (b :: s)
    rw [lower_cons] at ih
    rw [lower_cons, lower_cons, hasLetterDotPattern, hasLetterDotPattern, ih, isAlpha_toLower, hdot]

theorem letterCount_lower (w : Str) : letterCount (lower w) = letterCount w := by
  rw [letterCount, letterCount, lower, List.countP_map]
  exact List.countP_congr fun c _ => by rw [Function.comp, isAlpha_toLower]

theorem dotted_congr (h : lower r = lower w) :
    (hasLetterDotPattern r && 2 ≤ letterCount r) = (hasLetterDotPattern w && 2 ≤ letterCount w) := by
  rw [← hasLetterDotPattern_lower r, ← letterCount_lower r, h, hasLetterDotPattern_lower, letterCount_lower]

theorem Plain.congr (h : Plain w) (hcase : lower r = lower w) : Plain r where
  ne_nil := by
    rintro rfl
    exact h.ne_nil (List.length_eq_zero_iff.1 (length_eq hcase).symm)
  ampersand := (mem_congr rfl hcase).not.2 h.ampersand
  special := hcase ▸ h.special

/-- The word is kept when it is written in capitals, or when the rules that cut it keep it. -/
theorem Plain.again (h : Plain w) (hcase : lower r = lower w) (hdotted : (hasLetterDotPattern w && 2 ≤ letterCount w) = true → r = upper w)
    (hroman : isRomanNumeral (upper w) = true → r = upper w)
    (hcut : isRomanNumeral (upper w) = false → (match splitOnce '\'' r with
      | some (first, rest) => capitalizeWordCore first ++ '\'' :: rest
      | none =>
        match splitOnce '-' r with
        | some (first, afterHyphen) => capitalizeWordCore first ++ '-' :: capitalizeWordCore afterHyphen
        | none =>
          match splitOnce '/' r with
          | some (first, afterSlash) => capitalizeWordCore first ++ '/' :: capitalizeWordCore afterSlash
          | none => capitalizeFirst r) = r) : capitalizeWordCore r = r := by
  rw [capitalizeWordCore_of_plain (h.congr hcase), dotted_congr hcase, upper_congr hcase]
  split_ifs with hdot hshort hrom
  · exact (hdotted hdot).symm
  · rfl
  · exact (hroman hrom).symm
  · exact hcut (Bool.not_eq_true _ ▸ hrom)

/-- No component becomes shorter. -/
theorem Capitalized.length_le (h : Capitalized w r) : w.length ≤ r.length := by
  induction h with
  | nil => exact le_refl _
  | ampersand _ _ _ iha ihb => simp only [List.length_append, List.length_cons]; omega
  | special _ hspecial => simpa using (entryFacts hspecial).length
  | dotted => simp
  | capitals => exact le_refl _
  | roman => simp
  | apostrophe _ _ _ iha => simp only [List.length_append, List.length_cons]; omega
  | hyphen _ _ _ _ _ iha ihb => simp only [List.length_append, List.length_cons]; omega
  | slash _ _ _ _ _ _ iha ihb => simp only [List.length_append, List.length_cons]; omega
  | @word w => cases w <;> simp [capitalizeFirst]

/-- Two pieces that together are changed in case only are changed in case only. -/
theorem Capitalized.pieces {a b a' b' : Str} {x : Char} (ha : Capitalized a a') (hb : Capitalized b b')
    (hcase : lower (a' ++ x :: b') = lower (a ++ x :: b)) : lower a' = lower a ∧ lower b' = lower b := by
  have hlength := length_eq hcase
  have hale := ha.length_le
  have hble := hb.length_le
  simp only [List.length_append, List.length_cons] at hlength
  exact append_congr hcase (by omega)

theorem capitalizeFirst_again (w : Str) : capitalizeFirst (capitalizeFirst w) = capitalizeFirst w := by
  cases w with
  | nil => rfl
  | cons c s => simp [capitalizeFirst]

/-- What is changed in case only is kept the next time. -/
theorem Capitalized.again (h : Capitalized w r) (hand : '&' ∉ w) (hcase : lower r = lower w) : capitalizeWordCore r = r := by
  induction h with
  | nil => rw [capitalizeWordCore, if_pos rfl]
  | ampersand => exact absurd (List.mem_append_right _ List.mem_cons_self) hand
  | special _ hspecial => exact capitalizeWordCore_spelling hspecial
  | dotted hplain hdotted =>
    rw [capitalizeWordCore_of_plain (hplain.congr hcase), dotted_congr hcase, if_pos hdotted, upper_upper]
  | capitals hplain hdotted hcapitals =>
    rw [capitalizeWordCore_of_plain hplain, if_neg (by rw [hdotted]; exact Bool.false_ne_true), if_pos hcapitals]
  | roman hplain hdotted hcapitals hroman =>
    refine hplain.again hcase (fun _ => rfl) (fun _ => rfl) fun hnot => ?_
    rw [hroman] at hnot
    cases hnot
  | @apostrophe a b a' hordinary hmem ha iha =>
    have hb : lower a' = lower a := by
      rw [lower_append, lower_append] at hcase
      exact List.append_cancel_right hcase
    have hmem' : '\'' ∉ a' := (mem_congr rfl hb).not.2 hmem
    refine hordinary.toPlain.again hcase (fun h => ?_) (fun h => ?_) fun _ => ?_
    · rw [hordinary.dotted] at h
      cases h
    · rw [hordinary.roman] at h
      cases h
    · rw [splitOnce_append hmem']
      dsimp only
      rw [iha (fun h => hand (List.mem_append_left _ h)) hb]
  | @hyphen a b a' b' hordinary happos hmem ha hb iha ihb =>
    obtain ⟨hca, hcb⟩ := ha.pieces hb hcase
    refine hordinary.toPlain.again hcase (fun h => ?_) (fun h => ?_) fun _ => ?_
    · rw [hordinary.dotted] at h
      cases h
    · rw [hordinary.roman] at h
      cases h
    · rw [splitOnce_eq_none.2 ((mem_congr rfl hcase).not.2 happos)]
      dsimp only
      rw [splitOnce_append ((mem_congr rfl hca).not.2 hmem)]
      dsimp only
      rw [iha (fun h => hand (List.mem_append_left _ h)) hca,
        ihb (fun h => hand (List.mem_append_right _ (List.mem_cons_of_mem _ h))) hcb]
  | @slash a b a' b' hordinary happos hhyphen hmem ha hb iha ihb =>
    obtain ⟨hca, hcb⟩ := ha.pieces hb hcase
    refine hordinary.toPlain.again hcase (fun h => ?_) (fun h => ?_) fun _ => ?_
    · rw [hordinary.dotted] at h
      cases h
    · rw [hordinary.roman] at h
      cases h
    · rw [splitOnce_eq_none.2 ((mem_congr rfl hcase).not.2 happos)]
      dsimp only
      rw [splitOnce_eq_none.2 ((mem_congr rfl hcase).not.2 hhyphen)]
      dsimp only
      rw [splitOnce_append ((mem_congr rfl hca).not.2 hmem)]
      dsimp only
      rw [iha (fun h => hand (List.mem_append_left _ h)) hca,
        ihb (fun h => hand (List.mem_append_right _ (List.mem_cons_of_mem _ h))) hcb]
  | word hordinary happos hhyphen hslash =>
    refine hordinary.toPlain.again hcase (fun h => ?_) (fun h => ?_) fun _ => ?_
    · rw [hordinary.dotted] at h
      cases h
    · rw [hordinary.roman] at h
      cases h
    · rw [splitOnce_eq_none.2 ((mem_congr rfl hcase).not.2 happos)]
      dsimp only
      rw [splitOnce_eq_none.2 ((mem_congr rfl hcase).not.2 hhyphen)]
      dsimp only
      rw [splitOnce_eq_none.2 ((mem_congr rfl hcase).not.2 hslash)]
      exact capitalizeFirst_again _

end

end Rename
