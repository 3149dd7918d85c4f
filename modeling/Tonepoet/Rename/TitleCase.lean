import Tonepoet.Library.AsciiCase
import Tonepoet.Text

/-!
# Title-casing (renaming.rs:11-76, 435-650)

`capitalize_title` cuts a title into parenthetical sections, a section into words, and a word's core into components. The tests of
characters are those of ASCII.
-/

namespace Rename

open Rust AsciiCase

/-- `NON_CAPITALIZED_WORDS`. -/
def nonCapitalizedWords : List Str :=
  ["a", "an", "the", "and", "but", "or", "for", "nor", "on", "at", "to", "from", "by", "of", "as", "about", "in", "up", "with"].map String.toList

/-- `SPECIAL_CASES`. -/
def specialCases : List (Str × Str) :=
  [("ac/dc", "AC/DC"), ("acdc", "AC/DC"), ("ac-dc", "AC/DC"), ("esg", "ESG"), ("rem", "R.E.M."), ("r.e.m.", "R.E.M."), ("csny", "CSNY"),
    ("elo", "ELO"), ("abba", "ABBA"), ("inxs", "INXS"), ("nwa", "N.W.A"), ("n.w.a", "N.W.A"), ("omg", "OMG"), ("uk", "UK"), ("usa", "USA"),
    ("ussr", "USSR"), ("nyc", "NYC"), ("la", "LA"), ("dj", "DJ"), ("mc", "MC"), ("mg", "MG"), ("tv", "TV"), ("mtv", "MTV"), ("bbc", "BBC"),
    ("zz", "ZZ"), ("xrcd", "XRCD"), ("xrcd2", "XRCD2"), ("xrcd24", "XRCD24"), ("jp", "JP"), ("lp", "LP"),
    -- Roman numerals
    ("ii", "II"), ("iii", "III"), ("iv", "IV"), ("v", "V"), ("vi", "VI"), ("vii", "VII"), ("viii", "VIII"), ("ix", "IX"), ("x", "X"),
    ("xi", "XI"), ("xii", "XII"), ("xiii", "XIII"), ("xiv", "XIV"), ("xv", "XV")].map fun entry => (entry.1.toList, entry.2.toList)

/-- `SPECIAL_CASES.get`. -/
def specialCase (wordLower : Str) : Option Str := specialCases.lookup wordLower

/-! ## `ROMAN_NUMERAL_PATTERN` -/

def thousands : List Str := ["", "M", "MM", "MMM", "MMMM"].map String.toList

/-- `(IX|IV|V?I{0,3})` with other letters for the one, the five and the ten. -/
def decade (one five ten : Char) : List Str :=
  [[one, ten], [one, five], [], [one], [one, one], [one, one, one], [five], [five, one], [five, one, one], [five, one, one, one]]

/-- The word is one alternative of each group in turn. -/
def matchesGroups : List (List Str) → Str → Bool
  | [], word => word.isEmpty
  | group :: groups, word => group.any fun part => part.isPrefixOf word && matchesGroups groups (word.drop part.length)

def isRomanNumeral (word : Str) : Bool := matchesGroups [thousands, decade 'C' 'D' 'M', decade 'X' 'L' 'C', decade 'I' 'V' 'X'] word

/-! ## Words -/

/-- A letter with a dot behind it. -/
def hasLetterDotPattern : Str → Bool
  | a :: b :: s => (a.isAlpha && b == '.') || hasLetterDotPattern (b :: s)
  | _ => false

def letterCount (word : Str) : ℕ := word.countP Char.isAlpha

/-- Two to five characters, and no letter is lower-case. -/
def isShortCapitals (word : Str) : Bool := 2 ≤ word.length && word.length ≤ 5 && word.all fun ch => ch.isUpper || !ch.isAlpha

/-- The first character in upper case, the others in lower case. -/
def capitalizeFirst : Str → Str
  | [] => []
  | first :: rest => first.toUpper :: lower rest

/-- `capitalize_word_core` (renaming.rs:571). -/
def capitalizeWordCore (word : Str) : Str :=
  if word = [] then []
  else match _hand : splitOnce '&' word with
  | some (first, afterAmpersand) => capitalizeWordCore first ++ '&' :: capitalizeWordCore afterAmpersand
  | none =>
    match specialCase (lower word) with
    | some special => special
    | none =>
      if hasLetterDotPattern word && 2 ≤ letterCount word then upper word
      else if isShortCapitals word then word
      else if isRomanNumeral (upper word) then upper word
      else match _happos : splitOnce '\'' word with
      | some (first, rest) => capitalizeWordCore first ++ '\'' :: rest
      | none =>
        match _hhyphen : splitOnce '-' word with
        | some (first, afterHyphen) => capitalizeWordCore first ++ '-' :: capitalizeWordCore afterHyphen
        | none =>
          match _hslash : splitOnce '/' word with
          | some (first, afterSlash) => capitalizeWordCore first ++ '/' :: capitalizeWordCore afterSlash
          | none => capitalizeFirst word
  termination_by word.length
  decreasing_by
    · exact (length_of_splitOnce _hand).1
    · exact (length_of_splitOnce _hand).2
    · exact (length_of_splitOnce _happos).1
    · exact (length_of_splitOnce _hhyphen).1
    · exact (length_of_splitOnce _hhyphen).2
    · exact (length_of_splitOnce _hslash).1
    · exact (length_of_splitOnce _hslash).2

/-- `word_affixes` (renaming.rs:526). -/
def wordAffixes (word : Str) : Str × Str × Str :=
  let core := (word.dropWhile fun ch => !ch.isAlphanum)
  (word.takeWhile (fun ch => !ch.isAlphanum), core.rdropWhile (fun ch => !ch.isAlphanum), core.rtakeWhile (fun ch => !ch.isAlphanum))

def wordCore (word : Str) : Str := (wordAffixes word).2.1

/-- `word_has_opening_prefix`. -/
def wordHasOpeningPrefix (word : Str) : Bool := (wordAffixes word).1.any fun ch => ['(', '[', '{', '"', '\'', '“', '‘'].contains ch

def lowercaseWordCore (word : Str) : Str :=
  let (front, core, back) := wordAffixes word
  if core = [] then word else front ++ lower core ++ back

def capitalizeWord (word : Str) : Str :=
  let (front, core, back) := wordAffixes word
  if core = [] then word else front ++ capitalizeWordCore core ++ back

/-! ## Sections -/

/-- `normalize_all_caps`. -/
def isAllCaps (sect : Str) : Bool := 1 < sect.length && sect.all fun ch => !ch.isAlpha || ch.isUpper

/-- The words of a section, each with the space in front of it, and the space at the end. -/
def sectionWords : Str → List (Str × Str) × Str
  | [] => ([], [])
  | ch :: s =>
    if isWhitespace ch then
      match sectionWords s with
      | ((gap, word) :: words, tail) => ((ch :: gap, word) :: words, tail)
      | ([], tail) => ([], ch :: tail)
    else
      match sectionWords s with
      | (([], word) :: words, tail) => (([], ch :: word) :: words, tail)
      | (words, tail) => (([], [ch]) :: words, tail)

/-- The word as the rules see it: an all-caps section is read in lower case, but for a designator such as `(US`. -/
def normalizeWord (normalizeAllCaps : Bool) (originalWord : Str) : Str :=
  if normalizeAllCaps && !(wordHasOpeningPrefix originalWord && wordCore originalWord == ['U', 'S']) then lowercaseWordCore originalWord
  else originalWord

/-- One word: the first and the last one, one that follows an ampersand or opens a delimited part, and one that is no small word. -/
def transformWord (normalizeAllCaps : Bool) (previous : Option Str) (isLast : Bool) (originalWord : Str) : Str :=
  let word := normalizeWord normalizeAllCaps originalWord
  let afterAmpersand := (previous.any fun p => p.contains '&') || (wordAffixes word).1.contains '&'
  let firstInDelimitedSection := wordHasOpeningPrefix word
  let coreLower := lower (wordCore word)
  if previous.isNone || isLast || afterAmpersand || firstInDelimitedSection || !nonCapitalizedWords.contains coreLower then capitalizeWord word
  else lowercaseWordCore word

def transformWords (normalizeAllCaps : Bool) : Option Str → List (Str × Str) → List (Str × Str)
  | _, [] => []
  | previous, (gap, word) :: words =>
    (gap, transformWord normalizeAllCaps previous words.isEmpty word) :: transformWords normalizeAllCaps (some word) words

def joinWords (words : List (Str × Str)) (tail : Str) : Str := (words.flatMap fun w => w.1 ++ w.2) ++ tail

/-- `capitalize_section` (renaming.rs:464). -/
def capitalizeSection (sect : Str) : Str :=
  let (words, tail) := sectionWords sect
  joinWords (transformWords (isAllCaps sect) none words) tail

/-! ## Titles -/

/-- The first match of `\([^)]*\)`: what is in front of it, between the delimiters, and behind. -/
def findParenthetical (title : Str) : Option (Str × Str × Str) :=
  match splitOnce '(' title with
  | none => none
  | some (before, rest) =>
    match splitOnce ')' rest with
    | none => none
    | some (content, after) => some (before, content, after)

theorem findParenthetical_eq_some {title before content after : Str} : findParenthetical title = some (before, content, after) ↔
    title = before ++ '(' :: (content ++ ')' :: after) ∧ '(' ∉ before ∧ ')' ∉ content := by
  unfold findParenthetical
  constructor
  · intro h
    split at h
    · cases h
    · next b rest hopen =>
      split at h
      · cases h
      · next content' after' hclose =>
        cases h
        obtain ⟨rfl, hb⟩ := splitOnce_eq_some.1 hopen
        obtain ⟨rfl, hc⟩ := splitOnce_eq_some.1 hclose
        exact ⟨rfl, hb, hc⟩
  · rintro ⟨rfl, hb, hc⟩
    rw [splitOnce_append hb]
    dsimp only
    rw [splitOnce_append hc]

/-- `capitalize_title` (renaming.rs:435). -/
def capitalizeTitle (title : Str) : Str :=
  match _hfind : findParenthetical title with
  | none => capitalizeSection title
  | some (before, content, after) =>
    let parenContent := '(' :: (content ++ [')'])
    capitalizeSection before ++ (if parenContent.length > 2 then capitalizeSection parenContent else parenContent) ++ capitalizeTitle after
  termination_by title.length
  decreasing_by
    obtain ⟨rfl, -, -⟩ := findParenthetical_eq_some.1 _hfind
    simp only [List.length_append, List.length_cons]
    omega

end Rename
