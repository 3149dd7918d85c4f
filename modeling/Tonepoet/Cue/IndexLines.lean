import Tonepoet.Cue.FileReplacement

/-!
# INDEX lines and their timestamps (cue_parser.rs:2163-2188, 5117-5160)

The timestamp of an INDEX line is replaced where the line holds it; what the line says of it afterwards is the new one, and nothing else
of the line changes.
-/

namespace Cue

open Rust

/-! ## Tokens -/

theorem splitWhitespace_nil : splitWhitespace [] = [] := rfl

theorem splitWhitespace_space {c : Char} (h : isWhitespace c = true) (s : Str) : splitWhitespace (c :: s) = splitWhitespace s := by
  unfold splitWhitespace
  rw [← List.nil_append (c :: s), List.splitOnP_append_cons [] s h]
  rfl

theorem splitWhitespace_word {word : Str} (hne : word ≠ []) (hword : ∀ c ∈ word, isWhitespace c = false) {rest : Str} (hends : Ends rest) :
    splitWhitespace (word ++ rest) = word :: splitWhitespace rest := by
  have hkeep : ∀ words : List Str, (word :: words).filter (fun token => !token.isEmpty) = word :: words.filter (fun token => !token.isEmpty) :=
    fun words => List.filter_cons_of_pos (by simpa using hne)
  cases rest with
  | nil =>
    unfold splitWhitespace
    rw [List.append_nil, List.splitOnP_eq_singleton hword, hkeep]
    rfl
  | cons c rest =>
    rw [splitWhitespace_space hends]
    unfold splitWhitespace
    rw [List.splitOnP_append_cons_of_forall_mem hword _ hends, hkeep]

theorem splitWhitespace_blank {blank : Str} (h : ∀ c ∈ blank, isWhitespace c = true) (s : Str) :
    splitWhitespace (blank ++ s) = splitWhitespace s := by
  induction blank with
  | nil => rfl
  | cons c blank ih =>
    rw [List.forall_mem_cons] at h
    rw [List.cons_append, splitWhitespace_space h.1, ih h.2]

/-- A text starts with blanks and a word, or is blank. -/
theorem exists_word (s : Str) : (∀ c ∈ s, isWhitespace c = true) ∨
    ∃ blank word rest, s = blank ++ (word ++ rest) ∧ (∀ c ∈ blank, isWhitespace c = true) ∧ word ≠ [] ∧
      (∀ c ∈ word, isWhitespace c = false) ∧ Ends rest := by
  obtain ⟨blank, heq, hblank⟩ := exists_trimStart s
  cases hs : trimStart s with
  | nil =>
    left
    rw [hs, List.append_nil] at heq
    rw [heq]
    exact hblank
  | cons c more =>
    right
    have hc : isWhitespace c = false := head_trimStart (by rw [hs]; rfl)
    refine ⟨blank, (c :: more).takeWhile fun c => !isWhitespace c, (c :: more).dropWhile fun c => !isWhitespace c, ?_, hblank, ?_, ?_, ?_⟩
    · rw [List.takeWhile_append_dropWhile, ← hs]
      exact heq
    · rw [List.takeWhile_cons_of_pos (by rw [hc]; rfl)]
      exact List.cons_ne_nil _ _
    · intro d hd
      have hnot := List.mem_takeWhile_imp hd
      simpa using hnot
    · have hhead := List.head?_dropWhile_not (fun c => !isWhitespace c) (c :: more)
      unfold Ends
      cases hrest : (c :: more).dropWhile fun c => !isWhitespace c with
      | nil => rfl
      | cons d rest =>
        rw [hrest] at hhead
        simpa using hhead

theorem splitWhitespace_append_space {c : Char} (h : isWhitespace c = true) (a b : Str) :
    splitWhitespace (a ++ c :: b) = splitWhitespace a ++ splitWhitespace b := by
  unfold splitWhitespace
  rw [List.splitOnP_append_cons _ _ h, List.filter_append]

/-- Blanks at the end are no token. -/
theorem splitWhitespace_append_blank {blank : Str} (h : ∀ c ∈ blank, isWhitespace c = true) (s : Str) :
    splitWhitespace (s ++ blank) = splitWhitespace s := by
  cases blank with
  | nil => rw [List.append_nil]
  | cons c blank =>
    rw [List.forall_mem_cons] at h
    have hnone := splitWhitespace_blank h.2 []
    rw [List.append_nil, splitWhitespace_nil] at hnone
    rw [splitWhitespace_append_space h.1, hnone, List.append_nil]

theorem splitWhitespace_trimEnd (s : Str) : splitWhitespace (trimEnd s) = splitWhitespace s := by
  obtain ⟨blank, heq, hblank⟩ := exists_trimEnd s
  conv_rhs => rw [heq]
  rw [splitWhitespace_append_blank hblank]

theorem splitWhitespace_trimStart (s : Str) : splitWhitespace (trimStart s) = splitWhitespace s := by
  obtain ⟨blank, heq, hblank⟩ := exists_trimStart s
  conv_rhs => rw [heq]
  rw [splitWhitespace_blank hblank]

/-- Where the first token stands. -/
theorem exists_token {s token : Str} {tokens : List Str} (h : splitWhitespace s = token :: tokens) :
    ∃ blank rest, s = blank ++ (token ++ rest) ∧ (∀ c ∈ blank, isWhitespace c = true) ∧ token ≠ [] ∧
      (∀ c ∈ token, isWhitespace c = false) ∧ Ends rest ∧ splitWhitespace rest = tokens := by
  rcases exists_word s with hblank | ⟨blank, word, rest, rfl, hblank, hne, hword, hends⟩
  · have hnone := splitWhitespace_blank hblank []
    rw [List.append_nil, h] at hnone
    cases hnone
  · rw [splitWhitespace_blank hblank, splitWhitespace_word hne hword hends] at h
    cases h
    exact ⟨blank, rest, rfl, hblank, hne, hword, hends, rfl⟩

/-! ## Timestamps -/

/-- `{:02}`. -/
def twoDigits (n : ℕ) : Str := (formatNat n).leftpad 2 '0'

/-- `{minutes:02}:{seconds:02}:{frame:02}`, 75 frames a second. -/
def formatTimestamp (frames : ℕ) : Str :=
  twoDigits (frames / (75 * 60)) ++ ':' :: (twoDigits (frames % (75 * 60) / 75) ++ ':' :: twoDigits (frames % (75 * 60) % 75))

theorem isDigit_twoDigits {n : ℕ} : ∀ c ∈ twoDigits n, c.isDigit = true := by
  intro c hc
  unfold twoDigits List.leftpad at hc
  rcases List.mem_append.1 hc with hc | hc
  · rw [List.eq_of_mem_replicate hc]
    rfl
  · exact isDigit_of_mem_formatNat hc

theorem twoDigits_of_le {n : ℕ} (h : 10 ≤ n) : twoDigits n = formatNat n := by
  have hlen : 2 ≤ (formatNat n).length := by
    by_contra hlt
    rw [not_le, Nat.lt_succ_iff, formatNat, Nat.length_toDigits_le_iff (by decide) (by decide)] at hlt
    exact absurd hlt (not_lt.2 h)
  unfold twoDigits List.leftpad
  rw [Nat.sub_eq_zero_of_le hlen]
  rfl

theorem parseU32_twoDigits {n : ℕ} (h : n < 2 ^ 32) : parseU32 (twoDigits n) = some n := by
  by_cases hsmall : n < 10
  · have hall : ∀ n < 10, parseU32 (twoDigits n) = some n := by decide
    exact hall n hsmall
  · rw [twoDigits_of_le (not_lt.1 hsmall)]
    unfold parseU32
    rw [parseUsize_formatNat (by unfold usizeMax; omega), Option.filter_some_pos (by simpa using h)]

theorem parseCueTimestamp_formatTimestamp {frames : ℕ} (h : frames < 2 ^ 32) : parseCueTimestamp (formatTimestamp frames) = some frames := by
  have hcolon : ∀ n, ':' ∉ twoDigits n := fun n hmem => absurd (isDigit_twoDigits _ hmem) (by decide)
  have hsplit : (formatTimestamp frames).splitOn ':' =
      [twoDigits (frames / (75 * 60)), twoDigits (frames % (75 * 60) / 75), twoDigits (frames % (75 * 60) % 75)] := by
    unfold formatTimestamp
    rw [List.splitOn_append_cons_self_of_not_mem (hcolon _), List.splitOn_append_cons_self_of_not_mem (hcolon _),
      List.splitOn_eq_singleton (hcolon _)]
  unfold parseCueTimestamp
  rw [hsplit]
  dsimp only
  rw [parseU32_twoDigits (by omega), parseU32_twoDigits (by omega), parseU32_twoDigits (by omega)]
  simp only [Option.bind_eq_bind, Option.bind_some]
  rw [if_pos (by omega), Option.bind_some, if_pos (by omega), Option.bind_some, if_pos (by omega), Option.bind_some, if_pos (by omega)]
  congr 1
  omega

/-- What is a timestamp has a colon, and its frames fit. -/
theorem parseCueTimestamp_eq_some {ts : Str} {frames : ℕ} (h : parseCueTimestamp ts = some frames) : ':' ∈ ts ∧ frames < 2 ^ 32 := by
  constructor
  · by_contra hnone
    unfold parseCueTimestamp at h
    rw [List.splitOn_eq_singleton hnone] at h
    cases h
  · unfold parseCueTimestamp at h
    split at h
    · simp only [Option.bind_eq_bind, Option.bind_eq_some_iff] at h
      obtain ⟨mm, -, ss, -, ff, -, minutes, -, seconds, -, total, -, h⟩ := h
      split_ifs at h with hfits
      cases h
      exact hfits
    · cases h

/-! ## Replacing a timestamp -/

/-- `str::find` of a string. -/
def find (body needle : Str) : Option ℕ := (List.range (body.length + 1)).find? fun i => needle.isPrefixOf (body.drop i)

/-- A needle with a colon is found where the first colon of the text is in it. -/
theorem find_eq {front needle rest : Str} (hfront : ':' ∉ front) (hneedle : ':' ∈ needle) :
    find (front ++ (needle ++ rest)) needle = some front.length := by
  unfold find
  rw [List.find?_range_eq_some]
  refine ⟨?_, ?_, ?_⟩
  · rw [List.drop_left, List.isPrefixOf_iff_prefix]
    exact List.prefix_append _ _
  · rw [List.mem_range, List.length_append]
    omega
  · intro i hi
    rw [Bool.not_eq_true', Bool.eq_false_iff, ne_eq, List.isPrefixOf_iff_prefix]
    rintro ⟨tail, htail⟩
    -- the first colon of the needle would be a colon before the needle's own place
    obtain ⟨a, b, hsplit, hfirst⟩ : ∃ a b, needle = a ++ ':' :: b ∧ ':' ∉ a := List.eq_append_cons_of_mem hneedle
    have hat : (front ++ (needle ++ rest))[i + a.length]? = some ':' := by
      rw [← List.getElem?_drop, ← htail, hsplit, List.append_assoc, List.getElem?_append_right (le_refl _), Nat.sub_self]
      rfl
    have hmem : ':' ∈ front ++ a := by
      have hlt : i + a.length < (front ++ a).length := by
        rw [List.length_append]
        omega
      rw [hsplit, List.append_assoc, ← List.append_assoc, List.getElem?_append_left hlt] at hat
      exact List.mem_of_getElem? hat
    rcases List.mem_append.1 hmem with h | h
    · exact hfront h
    · exact hfirst h

/-- `replace_index_timestamp_preserving_line` (cue_parser.rs:2163). -/
def replaceIndexTimestampPreservingLine (body indexNumber : Str) (frames : ℕ) : Option Str := do
  let rest ← stripKeywordCi (trimStart body) indexKeyword
  match splitWhitespace (trimStart rest) with
  | actualIndex :: timestamp :: _ =>
    if actualIndex ≠ indexNumber then none
    else do
      let timestampStart ← find body timestamp
      return body.take timestampStart ++ (formatTimestamp frames ++ body.drop (timestampStart + timestamp.length))
  | _ => none

/-- The lines of an audio track that are rewritten. -/
inductive IndexNumber | index00 | index01
  deriving DecidableEq

def IndexNumber.text : IndexNumber → Str
  | .index00 => ['0', '0']
  | .index01 => ['0', '1']

/-- What stands before the timestamp of an INDEX line. -/
structure IndexFront (number : IndexNumber) (front : Str) : Prop where
  shape : ∃ blank word space space', front = blank ++ (word ++ (space ++ (number.text ++ space'))) ∧
    (∀ c ∈ blank, isWhitespace c = true) ∧ Spells word indexKeyword ∧ (∀ c ∈ space, isWhitespace c = true) ∧
    (∀ c ∈ space', isWhitespace c = true) ∧ space ≠ [] ∧ space' ≠ []

theorem keyword_index : Keyword indexKeyword := by decide

variable {number : IndexNumber} {front timestamp rest body : Str} {frames : ℕ}

theorem IndexFront.no_colon (h : IndexFront number front) : ':' ∉ front := by
  obtain ⟨blank, word, space, space', rfl, hblank, hword, hspace, hspace', -, -⟩ := h.shape
  have hnot : ∀ {s : Str}, (∀ c ∈ s, isWhitespace c = true) → ':' ∉ s := fun hs hmem => absurd (hs _ hmem) (by decide)
  have halpha : ':' ∉ word := fun hmem => absurd (hword.isAlpha keyword_index _ hmem) (by decide)
  have hnumber : ':' ∉ number.text := by cases number <;> decide
  simp only [List.mem_append, not_or]
  exact ⟨hnot hblank, halpha, hnot hspace, hnumber, hnot hspace'⟩

theorem IndexFront.strip (h : IndexFront number front) (rest : Str) : ∃ space space', stripKeywordCi (trimStart (front ++ rest)) indexKeyword =
      some (space ++ (number.text ++ (space' ++ rest))) ∧ (∀ c ∈ space, isWhitespace c = true) ∧ (∀ c ∈ space', isWhitespace c = true) ∧
      space' ≠ [] := by
  obtain ⟨blank, word, space, space', rfl, hblank, hword, hspace, hspace', hne, hne'⟩ := h.shape
  refine ⟨space, space', ?_, hspace, hspace', hne'⟩
  rw [stripKeywordCi_trimStart keyword_index]
  refine ⟨blank, word, by simp only [List.append_assoc], hblank, hword, ?_⟩
  obtain ⟨c, more, rfl⟩ := List.exists_cons_of_ne_nil hne
  exact ends_cons (hspace c List.mem_cons_self) _

theorem IndexFront.tokens (h : IndexFront number front) (hne : timestamp ≠ []) (hts : ∀ c ∈ timestamp, isWhitespace c = false)
    (hends : Ends rest) : ∃ stripped, stripKeywordCi (trimStart (front ++ (timestamp ++ rest))) indexKeyword = some stripped ∧
      splitWhitespace stripped = number.text :: timestamp :: splitWhitespace rest := by
  obtain ⟨space, space', hstrip, hspace, hspace', hne'⟩ := h.strip (timestamp ++ rest)
  refine ⟨_, hstrip, ?_⟩
  have hnumber : number.text ≠ [] ∧ ∀ c ∈ number.text, isWhitespace c = false := by cases number <;> decide
  have hend : Ends (space' ++ (timestamp ++ rest)) := by
    obtain ⟨c, more, rfl⟩ := List.exists_cons_of_ne_nil hne'
    exact ends_cons (hspace' c List.mem_cons_self) _
  rw [splitWhitespace_blank hspace, splitWhitespace_word hnumber.1 hnumber.2 hend, splitWhitespace_blank hspace',
    splitWhitespace_word hne hts hends]

/-- The line says the frames of its timestamp. -/
theorem IndexFront.parse (h : IndexFront number front) (hne : timestamp ≠ []) (hts : ∀ c ∈ timestamp, isWhitespace c = false) (hends : Ends rest) :
    parseIndexLine (trim (front ++ (timestamp ++ rest))) number.text = parseCueTimestamp timestamp := by
  obtain ⟨stripped, hstrip, htokens⟩ := h.tokens hne hts hends
  unfold parseIndexLine
  rw [stripKeywordCi_trim keyword_index, hstrip, Option.map_some]
  simp only [Option.bind_eq_bind, Option.bind_some]
  rw [splitWhitespace_trimStart, splitWhitespace_trimEnd, htokens]
  exact if_neg (not_not.2 rfl)

theorem IndexFront.replace (h : IndexFront number front) (hts : ∀ c ∈ timestamp, isWhitespace c = false) (hcolon : ':' ∈ timestamp)
    (hends : Ends rest) (frames : ℕ) : replaceIndexTimestampPreservingLine (front ++ (timestamp ++ rest)) number.text frames =
      some (front ++ (formatTimestamp frames ++ rest)) := by
  obtain ⟨stripped, hstrip, htokens⟩ := h.tokens (List.ne_nil_of_mem hcolon) hts hends
  unfold replaceIndexTimestampPreservingLine
  rw [hstrip]
  simp only [Option.bind_eq_bind, Option.bind_some]
  rw [splitWhitespace_trimStart, htokens]
  dsimp only
  rw [if_neg (not_not.2 rfl), find_eq h.no_colon hcolon, Option.bind_some, List.take_left]
  have hdrop : (front ++ (timestamp ++ rest)).drop (front.length + timestamp.length) = rest := by
    rw [← List.append_assoc, ← List.length_append, List.drop_left]
  rw [hdrop]
  rfl

/-- Where a line that says an index has its timestamp. -/
theorem exists_indexFront (h : parseIndexLine (trim body) number.text = some frames) :
    ∃ front timestamp rest, body = front ++ (timestamp ++ rest) ∧ IndexFront number front ∧ (∀ c ∈ timestamp, isWhitespace c = false) ∧
      parseCueTimestamp timestamp = some frames ∧ Ends rest := by
  unfold parseIndexLine at h
  rw [stripKeywordCi_trim keyword_index] at h
  simp only [Option.bind_eq_bind, Option.bind_eq_some_iff, Option.map_eq_some_iff] at h
  obtain ⟨_, ⟨stripped, hstrip, rfl⟩, h⟩ := h
  rw [splitWhitespace_trimStart, splitWhitespace_trimEnd] at h
  obtain ⟨blank, word, hbody, hblank, hword, hends⟩ := (stripKeywordCi_trimStart keyword_index).1 hstrip
  split at h
  · rename_i index timestamp tokens htokens
    split_ifs at h with hindex
    rw [not_not] at hindex
    obtain ⟨space, rest, rfl, hspace, hne, hnumber, hends', htokens'⟩ := exists_token htokens
    obtain ⟨space', rest', rfl, hspace', hne', hts, hends'', -⟩ := exists_token htokens'
    refine ⟨blank ++ (word ++ (space ++ (number.text ++ space'))), timestamp, rest', ?_, ⟨blank, word, space, space', rfl, hblank, hword, hspace,
      hspace', ?_, ?_⟩, hts, h, hends''⟩
    · rw [hbody, hindex]
      simp only [List.append_assoc]
    · -- the keyword ends at a blank
      rintro rfl
      obtain ⟨c, more, hc⟩ := List.exists_cons_of_ne_nil hne
      rw [hc] at hends hnumber
      exact absurd (hends.symm.trans (hnumber c List.mem_cons_self)) (by simp)
    · rintro rfl
      obtain ⟨c, more, hc⟩ := List.exists_cons_of_ne_nil hne'
      rw [hc] at hends' hts
      exact absurd (hends'.symm.trans (hts c List.mem_cons_self)) (by simp)
  · cases h

/-- An INDEX line with its timestamp replaced. -/
structure Restamped (number : IndexNumber) (frames : ℕ) (body body' : Str) : Prop where
  replaced : replaceIndexTimestampPreservingLine body number.text frames = some body'
  gives : parseIndexLine (trim body') number.text = some frames
  again : replaceIndexTimestampPreservingLine body' number.text frames = some body'
  around : ∃ front timestamp rest, body = front ++ (timestamp ++ rest) ∧ body' = front ++ (formatTimestamp frames ++ rest) ∧
    IndexFront number front ∧ (∀ c ∈ timestamp, isWhitespace c = false) ∧ timestamp ≠ []

theorem formatTimestamp_solid (frames : ℕ) : (∀ c ∈ formatTimestamp frames, isWhitespace c = false) ∧ ':' ∈ formatTimestamp frames := by
  have hdigits : ∀ {n : ℕ}, ∀ c ∈ twoDigits n, isWhitespace c = false := fun c hc => isWhitespace_of_isDigit (isDigit_twoDigits c hc)
  unfold formatTimestamp
  constructor
  · intro c hc
    rcases List.mem_append.1 hc with hc | hc
    · exact hdigits c hc
    rcases List.mem_cons.1 hc with rfl | hc
    · decide
    rcases List.mem_append.1 hc with hc | hc
    · exact hdigits c hc
    rcases List.mem_cons.1 hc with rfl | hc
    · decide
    · exact hdigits c hc
  · simp

/-- **A timestamp that is read can be replaced**, and the line then says the new one. -/
theorem exists_restamped (h : parseIndexLine (trim body) number.text = some frames) {frames' : ℕ} (hframes : frames' < 2 ^ 32) :
    ∃ body', Restamped number frames' body body' := by
  obtain ⟨front, timestamp, rest, rfl, hfront, hts, hparse, hends⟩ := exists_indexFront h
  obtain ⟨hsolid, hcolon⟩ := formatTimestamp_solid frames'
  have hcolon' := (parseCueTimestamp_eq_some hparse).1
  refine ⟨front ++ (formatTimestamp frames' ++ rest), hfront.replace hts hcolon' hends frames', ?_, hfront.replace hsolid hcolon hends frames',
    front, timestamp, rest, rfl, rfl, hfront, hts, List.ne_nil_of_mem hcolon'⟩
  rw [hfront.parse (List.ne_nil_of_mem hcolon) hsolid hends, parseCueTimestamp_formatTimestamp hframes]

end Cue
