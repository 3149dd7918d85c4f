import Tonepoet.Cue.LineParsing
import Tonepoet.Library.AsciiCase

/-!
# Keywords at the start of a line

The scanners read a trimmed line, the rewriting cuts a line as it stands. Trimming the end of a line only trims what
stands behind the keyword it starts with.
-/

namespace Cue

open Rust

/-! ## Letters -/

theorem isAlpha_of_toLower {c : Char} (h : c.toLower.isLower = true) : c.isAlpha = true := by
  rw [AsciiCase.isLower_iff, AsciiCase.toNat_toLower] at h
  rw [AsciiCase.isAlpha_iff]
  split_ifs at h with hupper
  · exact Or.inl hupper
  · exact Or.inr h

theorem isWhitespace_of_isAlpha {c : Char} (h : c.isAlpha = true) : isWhitespace c = false := by
  have hc := AsciiCase.isAlpha_iff.1 h
  simp only [isWhitespace, Bool.or_eq_false_iff, Bool.and_eq_false_iff, decide_eq_false_iff_not, beq_eq_false_iff_ne]
  omega

/-- A keyword: letters. -/
def Keyword (k : Str) : Prop := k ≠ [] ∧ ∀ c ∈ k, c.toLower.isLower = true

instance (k : Str) : Decidable (Keyword k) := inferInstanceAs (Decidable (_ ∧ _))

/-- A spelling of a keyword. -/
structure Spells (word k : Str) : Prop where
  eq : word.map Char.toLower = k.map Char.toLower

theorem Spells.length {word k : Str} (h : Spells word k) : word.length = k.length := by
  simpa using congrArg List.length h.eq

theorem Spells.isAlpha {word k : Str} (h : Spells word k) (hk : Keyword k) : ∀ c ∈ word, c.isAlpha = true := by
  intro c hc
  have hmem := List.mem_map_of_mem (f := Char.toLower) hc
  rw [h.eq] at hmem
  obtain ⟨c', hc', heq⟩ := List.mem_map.1 hmem
  exact isAlpha_of_toLower (by rw [← heq]; exact hk.2 c' hc')

theorem Spells.ne_nil {word k : Str} (h : Spells word k) (hk : Keyword k) : word ≠ [] := by
  rintro rfl
  exact hk.1 (List.length_eq_zero_iff.1 h.length.symm)

theorem Spells.isWhitespace {word k : Str} (h : Spells word k) (hk : Keyword k) : ∀ c ∈ word, isWhitespace c = false :=
  fun c hc => isWhitespace_of_isAlpha (h.isAlpha hk c hc)

/-! ## What stands behind a keyword -/

/-- Nothing, or something that starts with whitespace. -/
def Ends (rest : Str) : Prop := rest.head?.all isWhitespace = true

@[simp] theorem ends_nil : Ends [] := rfl

theorem ends_cons {c : Char} (h : isWhitespace c = true) (rest : Str) : Ends (c :: rest) := h

theorem Ends.append {rest : Str} (h : Ends rest) {more : Str} (hmore : Ends more) : Ends (rest ++ more) := by
  cases rest with
  | nil => exact hmore
  | cons c rest => exact h

theorem stripKeywordCi_eq_some {line k rest : Str} :
    stripKeywordCi line k = some rest ↔ ∃ word, line = word ++ rest ∧ Spells word k ∧ Ends rest := by
  constructor
  · intro h
    have htake := stripKeywordCi_take h
    unfold stripKeywordCi at h
    rw [if_neg (not_lt.2 htake.1)] at h
    dsimp only at h
    split at h
    · cases h
    · split at h
      case isTrue hend =>
        cases h
        refine ⟨line.take k.length, (List.take_append_drop _ _).symm, ⟨htake.2⟩, ?_⟩
        unfold Ends
        cases hdrop : line.drop k.length <;> simp_all
      case isFalse => cases h
  · rintro ⟨word, rfl, hword, hends⟩
    unfold stripKeywordCi
    rw [if_neg (by simp [hword.length]), ← hword.length, List.drop_left, List.take_left]
    have heq : eqIgnoreAsciiCase word k = true := by simp [eqIgnoreAsciiCase, hword.eq]
    rw [heq]
    cases rest with
    | nil => rfl
    | cons c rest => simpa [Ends] using hends

/-! ## Trimming the end -/

theorem trimEnd_append {word : Str} (h : ∀ c ∈ word, isWhitespace c = false) (rest : Str) : trimEnd (word ++ rest) = word ++ trimEnd rest := by
  induction word with
  | nil => rfl
  | cons c word ih =>
    rw [List.cons_append, trimEnd_cons (h c List.mem_cons_self), ih fun c' hc' => h c' (List.mem_cons_of_mem _ hc'), List.cons_append]

/-- What the end is trimmed of. -/
theorem exists_trimEnd (s : Str) : ∃ blank, s = trimEnd s ++ blank ∧ ∀ c ∈ blank, isWhitespace c = true := by
  refine ⟨s.rtakeWhile isWhitespace, ?_, fun c hc => ?_⟩
  · exact (List.rdropWhile_append_rtakeWhile ..).symm
  · exact List.mem_rtakeWhile_imp hc

theorem ends_blank {blank : Str} (h : ∀ c ∈ blank, isWhitespace c = true) : Ends blank := by
  cases blank with
  | nil => rfl
  | cons c blank => exact h c List.mem_cons_self

theorem Ends.trimEnd {rest : Str} (h : Ends rest) : Ends (trimEnd rest) := by
  obtain ⟨blank, heq, -⟩ := exists_trimEnd rest
  cases hrest : Rust.trimEnd rest with
  | nil => rfl
  | cons c more =>
    rw [hrest, List.cons_append] at heq
    rw [heq] at h
    exact h

theorem Ends.of_trimEnd {rest : Str} (h : Ends (Rust.trimEnd rest)) : Ends rest := by
  obtain ⟨blank, heq, hblank⟩ := exists_trimEnd rest
  rw [heq]
  exact h.append (ends_blank hblank)

/-- Trimming the end of a line trims what stands behind its keyword. -/
theorem stripKeywordCi_trimEnd {k : Str} (hk : Keyword k) (line : Str) :
    stripKeywordCi (trimEnd line) k = (stripKeywordCi line k).map trimEnd := by
  cases h : stripKeywordCi line k with
  | some rest =>
    obtain ⟨word, rfl, hword, hends⟩ := stripKeywordCi_eq_some.1 h
    rw [trimEnd_append (hword.isWhitespace hk)]
    exact stripKeywordCi_eq_some.2 ⟨word, rfl, hword, hends.trimEnd⟩
  | none =>
    cases h' : stripKeywordCi (trimEnd line) k with
    | none => rfl
    | some rest =>
      obtain ⟨word, hline, hword, hends⟩ := stripKeywordCi_eq_some.1 h'
      obtain ⟨blank, heq, hblank⟩ := exists_trimEnd line
      have hsome : stripKeywordCi line k = some (rest ++ blank) :=
        stripKeywordCi_eq_some.2 ⟨word, by rw [heq, hline, List.append_assoc], hword, hends.append (ends_blank hblank)⟩
      rw [h] at hsome
      cases hsome

theorem stripKeywordCi_trim {k : Str} (hk : Keyword k) (line : Str) :
    stripKeywordCi (trim line) k = (stripKeywordCi (trimStart line) k).map trimEnd := stripKeywordCi_trimEnd hk _

/-- Whitespace before a line, and the line. -/
theorem exists_trimStart (s : Str) : ∃ blank, s = blank ++ trimStart s ∧ ∀ c ∈ blank, isWhitespace c = true :=
  ⟨s.takeWhile isWhitespace, List.takeWhile_append_dropWhile.symm, fun _ hc => List.mem_takeWhile_imp hc⟩

theorem trimStart_blank {blank : Str} (h : ∀ c ∈ blank, isWhitespace c = true) (s : Str) : trimStart (blank ++ s) = trimStart s := by
  unfold trimStart
  rw [List.dropWhile_append_of_pos h]

theorem trimEnd_append_cons {c : Char} (h : isWhitespace c = false) (a b : Str) : trimEnd (a ++ c :: b) = a ++ c :: trimEnd b := by
  induction b using List.reverseRecOn with
  | nil => exact List.rdropWhile_concat_neg _ a c (by rw [h]; exact Bool.false_ne_true)
  | append_singleton b d ih =>
    unfold trimEnd at ih ⊢
    rw [← List.cons_append, ← List.append_assoc]
    by_cases hd : isWhitespace d = true
    · rw [List.rdropWhile_concat_pos _ _ _ hd, List.rdropWhile_concat_pos _ _ _ hd, ih]
    · rw [List.rdropWhile_concat_neg _ _ _ hd, List.rdropWhile_concat_neg _ _ _ hd, List.append_assoc, List.cons_append]

/-- The two ends of a line are trimmed in any order. -/
theorem trimStart_trimEnd (s : Str) : trimStart (trimEnd s) = trim s := by
  obtain ⟨blank, heq, hblank⟩ := exists_trimStart s
  unfold trim
  cases hs : trimStart s with
  | nil =>
    rw [hs, List.append_nil] at heq
    have hall : trimEnd s = [] := List.rdropWhile_eq_nil_iff.2 (heq ▸ hblank)
    rw [hall]
    rfl
  | cons c more =>
    have hc : isWhitespace c = false := by
      have h := List.head?_dropWhile_not isWhitespace s
      rw [← trimStart, hs] at h
      simpa using h
    rw [heq, hs, trimEnd_append_cons hc, trimStart_blank hblank, trimStart_cons hc, trimEnd_cons hc]

theorem trimStart_word {blank word : Str} {k : Str} (hblank : ∀ c ∈ blank, isWhitespace c = true) (hword : Spells word k) (hk : Keyword k)
    (rest : Str) : trimStart (blank ++ (word ++ rest)) = word ++ rest := by
  obtain ⟨c, more, rfl⟩ := List.exists_cons_of_ne_nil (hword.ne_nil hk)
  rw [trimStart_blank hblank, List.cons_append, trimStart_cons (hword.isWhitespace hk c List.mem_cons_self)]

/-- The keyword behind the blanks of a line. -/
theorem stripKeywordCi_trimStart {line k rest : Str} (hk : Keyword k) :
    stripKeywordCi (trimStart line) k = some rest ↔
      ∃ blank word, line = blank ++ (word ++ rest) ∧ (∀ c ∈ blank, isWhitespace c = true) ∧ Spells word k ∧ Ends rest := by
  rw [stripKeywordCi_eq_some]
  constructor
  · rintro ⟨word, hline, hword, hends⟩
    obtain ⟨blank, heq, hblank⟩ := exists_trimStart line
    exact ⟨blank, word, by rw [← hline, ← heq], hblank, hword, hends⟩
  · rintro ⟨blank, word, rfl, hblank, hword, hends⟩
    exact ⟨word, trimStart_word hblank hword hk rest, hword, hends⟩

end Cue
