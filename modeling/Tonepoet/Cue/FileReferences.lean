import Tonepoet.Cue.TrimmedLines

/-!
# FILE references in a line (cue_parser.rs:4802-4869)

`parse_file_line` reads the name of a FILE line, `cue_file_reference_span` finds where it stands. They find the same
name. Another name put in its place is read back when it stands in quotes; without them only if nothing of it
is trimmed.
-/

namespace Cue

open Rust

/-- The end of `cue_file_reference_span`: what is behind `FILE` and the whitespace after it, as the name and the place
where it starts. -/
def referenceIn (rest : Str) : Option (Str × ℕ) :=
  if rest.head? = some '"' then
    if '"' ∈ rest.tail then some (rest.tail.takeWhile (· ≠ '"'), 1) else none
  else
    let significant := trimEnd rest
    if !significant.any isWhitespace then none
    else
      let fileType := significant.rtakeWhile fun c => !isWhitespace c
      -- `rfind` finds the last whitespace, which belongs to the second part
      let split := significant.length - fileType.length - 1
      let filename := trimEnd (significant.take split)
      if filename.isEmpty || (trim (significant.drop split)).isEmpty then none else some (filename, 0)

/-- `cue_file_reference_span` (cue_parser.rs:4821): the name, where it starts and where it ends. -/
def cueFileReferenceSpan (line : Str) : Option (Str × ℕ × ℕ) := do
  let trimmed := trimStart line
  let leading := line.length - trimmed.length
  let _ ← stripKeywordCi trimmed fileKeyword
  -- the loop that moves `cursor` over whitespace
  let rest := trimStart (line.drop (leading + fileKeyword.length))
  let cursor := line.length - rest.length
  if rest.isEmpty then none
  else do
    let (reference, offset) ← referenceIn rest
    return (reference, cursor + offset, cursor + offset + reference.length)

/-- Whether the name of a FILE line is in quotes. -/
def quotedReference (line : Str) : Bool :=
  ((stripKeywordCi (trimStart line) fileKeyword).map trimStart).any fun rest => rest.head? == some '"'

/-- The last word of a line: the type that a FILE line without quotes ends with. -/
def fileType (line : Str) : Str := (trimEnd line).rtakeWhile fun c => !isWhitespace c

/-! ## Names without quotes -/

/-- A name, whitespace, a file type and whitespace again. -/
structure Unquoted (rest reference sep type trail : Str) : Prop where
  eq : rest = reference ++ (sep ++ (type ++ trail))
  sep_ne : sep ≠ []
  sep_blank : ∀ c ∈ sep, isWhitespace c = true
  type_ne : type ≠ []
  type_word : ∀ c ∈ type, isWhitespace c = false
  trail_blank : ∀ c ∈ trail, isWhitespace c = true

theorem trimEnd_blank {blank : Str} (h : ∀ c ∈ blank, isWhitespace c = true) (s : Str) : trimEnd (s ++ blank) = trimEnd s := by
  induction blank using List.reverseRecOn with
  | nil => rw [List.append_nil]
  | append_singleton blank c ih =>
    unfold trimEnd at ih ⊢
    rw [← List.append_assoc, List.rdropWhile_concat_pos _ _ _ (h c (by simp)), ih fun c' hc' => h c' (by simp [hc'])]

theorem trimEnd_word {word : Str} (hne : word ≠ []) (h : ∀ c ∈ word, isWhitespace c = false) (s : Str) :
    trimEnd (s ++ word) = s ++ word := by
  unfold trimEnd
  rw [List.rdropWhile_eq_self_iff]
  intro hnil
  rw [List.getLast_append_of_ne_nil hnil hne, h _ (List.getLast_mem hne)]
  exact Bool.false_ne_true

theorem rtakeWhile_word {word blank : Str} (h : ∀ c ∈ word, isWhitespace c = false) (hne : blank ≠ [])
    (hblank : ∀ c ∈ blank, isWhitespace c = true) (s : Str) :
    (s ++ (blank ++ word)).rtakeWhile (fun c => !isWhitespace c) = word := by
  induction word using List.reverseRecOn with
  | nil =>
    obtain ⟨init, last, rfl⟩ := List.eq_nil_or_concat blank |>.resolve_left hne
    rw [List.append_nil, List.concat_eq_append, ← List.append_assoc]
    exact List.rtakeWhile_concat_neg _ _ _ (by rw [hblank last (by simp)]; exact Bool.false_ne_true)
  | append_singleton word c ih =>
    rw [← List.append_assoc blank, ← List.append_assoc s,
      List.rtakeWhile_concat_pos _ _ _ (by rw [h c (by simp)]; rfl), ih fun c' hc' => h c' (by simp [hc'])]

/-- What a name without quotes is read from. -/
theorem Unquoted.referenceIn_eq {rest reference sep type trail : Str} (h : Unquoted rest reference sep type trail)
    (hquote : rest.head? ≠ some '"') :
    referenceIn rest = if (trimEnd reference).isEmpty then none else some (trimEnd reference, 0) := by
  obtain ⟨init, last, hsep⟩ := List.eq_nil_or_concat sep |>.resolve_left h.sep_ne
  have hlast : isWhitespace last = true := h.sep_blank last (by simp [hsep])
  have hinit : ∀ c ∈ init, isWhitespace c = true := fun c hc => h.sep_blank c (by simp [hsep, hc])
  have hsignificant : trimEnd rest = reference ++ (sep ++ type) := by
    rw [h.eq, ← List.append_assoc sep, ← List.append_assoc reference, trimEnd_blank h.trail_blank, ← List.append_assoc]
    exact trimEnd_word h.type_ne h.type_word _
  have htype : (trimEnd rest).rtakeWhile (fun c => !isWhitespace c) = type := by
    rw [hsignificant]
    exact rtakeWhile_word h.type_word h.sep_ne h.sep_blank _
  have hcut : trimEnd rest = (reference ++ init) ++ last :: type := by
    rw [hsignificant, hsep]
    simp
  have hsplit : (trimEnd rest).length - type.length - 1 = (reference ++ init).length := by
    rw [hcut]
    simp only [List.length_append, List.length_cons]
    omega
  have hany : (trimEnd rest).any isWhitespace = true := List.any_eq_true.2 ⟨last, by rw [hcut]; simp, hlast⟩
  have htail : trim (last :: type) = type := by
    obtain ⟨c, more, rfl⟩ := List.exists_cons_of_ne_nil h.type_ne
    unfold trim
    rw [show trimStart (last :: c :: more) = trimStart (c :: more) from List.dropWhile_cons_of_pos hlast,
      trimStart_cons (h.type_word c List.mem_cons_self)]
    exact trimEnd_word h.type_ne h.type_word []
  unfold referenceIn
  rw [if_neg hquote]
  dsimp only
  rw [hany, htype, hsplit, hcut, List.take_left, List.drop_left, htail, trimEnd_blank hinit,
    List.isEmpty_eq_false_iff.2 h.type_ne, Bool.or_false]
  rfl

/-- Where there is a name without quotes. -/
theorem unquoted_of_referenceIn {rest reference : Str} {offset : ℕ} (hquote : rest.head? ≠ some '"')
    (h : referenceIn rest = some (reference, offset)) :
    offset = 0 ∧ reference ≠ [] ∧ trimEnd reference = reference ∧
      ∃ sep type trail, Unquoted rest reference sep type trail := by
  unfold referenceIn at h
  rw [if_neg hquote] at h
  dsimp only at h
  split at h
  · cases h
  rename_i hany
  obtain ⟨trail, hrest, htrail⟩ := exists_trimEnd rest
  -- the last whitespace, in front of the file type
  have hsignificant := List.rdropWhile_append_rtakeWhile (p := fun c => !isWhitespace c) (l := trimEnd rest)
  set type := (trimEnd rest).rtakeWhile fun c => !isWhitespace c with htype
  have hword : ∀ c ∈ type, isWhitespace c = false := fun c hc => by simpa using List.mem_rtakeWhile_imp hc
  rcases List.eq_nil_or_concat ((trimEnd rest).rdropWhile fun c => !isWhitespace c) with hnil | ⟨init, last, hinit⟩
  · rw [List.rdropWhile_eq_nil_iff] at hnil
    exfalso
    apply hany
    rw [Bool.not_eq_true', List.any_eq_false]
    intro c hc
    simpa using hnil c hc
  have hlast : isWhitespace last = true := by
    have hlast' := List.rdropWhile_last_not (fun c => !isWhitespace c) (trimEnd rest) (by rw [hinit]; simp)
    simp only [hinit] at hlast'
    simpa using hlast'
  rw [hinit] at hsignificant
  have hcut : trimEnd rest = init ++ last :: type := by rw [← hsignificant]; simp
  have hsplit : (trimEnd rest).length - type.length - 1 = init.length := by
    rw [hcut]
    simp only [List.length_append, List.length_cons]
    omega
  rw [hsplit, hcut, List.take_left, List.drop_left] at h
  split at h
  · cases h
  rename_i hparts
  rw [Bool.or_eq_true, not_or, Bool.not_eq_true, Bool.not_eq_true, List.isEmpty_eq_false_iff, List.isEmpty_eq_false_iff] at hparts
  cases h
  obtain ⟨blank, hblank, hblanks⟩ := exists_trimEnd init
  refine ⟨rfl, hparts.1, ?_, blank ++ [last], type, trail, ?_, by simp, ?_, ?_, hword, htrail⟩
  · have hdouble := trimEnd_blank hblanks (trimEnd init)
    rw [← hblank] at hdouble
    exact hdouble.symm
  · rw [hrest, hcut]
    nth_rewrite 1 [hblank]
    simp
  · intro c hc
    rcases List.mem_append.1 hc with hc | hc
    · exact hblanks c hc
    · rw [List.mem_singleton.1 hc]
      exact hlast
  · intro hnil
    apply hparts.2
    rw [hnil]
    unfold trim
    rw [show trimStart [last] = [] from List.dropWhile_cons_of_pos hlast]
    rfl

/-! ## Names in quotes -/

theorem takeWhile_quote {name : Str} (h : '"' ∉ name) (tail : Str) : (name ++ '"' :: tail).takeWhile (· ≠ '"') = name := by
  have hname : ∀ c ∈ name, decide (c ≠ '"') = true := fun c hc => decide_eq_true fun heq => h (heq ▸ hc)
  rw [List.takeWhile_append_of_pos hname, List.takeWhile_cons_of_neg (by simp), List.append_nil]

theorem referenceIn_quote (more : Str) :
    referenceIn ('"' :: more) = if '"' ∈ more then some (more.takeWhile (· ≠ '"'), 1) else none := if_pos rfl

theorem extractQuoted_quote (more : Str) :
    extractQuoted ('"' :: more) = if '"' ∈ more then some (more.takeWhile (· ≠ '"')) else none := by
  unfold extractQuoted
  exact if_neg (by simp)

theorem referenceIn_quoted {name : Str} (h : '"' ∉ name) (tail : Str) :
    referenceIn ('"' :: (name ++ '"' :: tail)) = some (name, 1) := by
  rw [referenceIn_quote, if_pos (by simp), takeWhile_quote h]

/-- A quoted name is closed before the whitespace that is trimmed. -/
theorem extractQuoted_trimEnd (more : Str) :
    extractQuoted ('"' :: trimEnd more) = (referenceIn ('"' :: more)).map Prod.fst := by
  rw [extractQuoted_quote, referenceIn_quote]
  by_cases h : '"' ∈ more
  · obtain ⟨name, tail, rfl, hname⟩ := List.eq_append_cons_of_mem h
    rw [trimEnd_append_cons (by decide), if_pos (by simp), if_pos h, takeWhile_quote hname, takeWhile_quote hname]
    rfl
  · obtain ⟨blank, heq, -⟩ := exists_trimEnd more
    have htrimmed : '"' ∉ trimEnd more := fun hmem => h (heq ▸ List.mem_append_left _ hmem)
    rw [if_neg htrimmed, if_neg h]
    rfl

/-! ## The two readers -/

theorem keyword_file : Keyword fileKeyword := by decide

theorem trimStart_idem (s : Str) : trimStart (trimStart s) = trimStart s := by
  unfold trimStart
  exact List.dropWhile_idempotent _ s

theorem head_trimStart {s : Str} {c : Char} (h : (trimStart s).head? = some c) : isWhitespace c = false := by
  have hhead := List.head?_dropWhile_not isWhitespace s
  rw [← trimStart, h] at hhead
  simpa using hhead

/-- The end of `parse_file_line`. -/
def parseReference (rest : Str) : Option Str :=
  if rest.head? = some '"' then extractQuoted rest
  else if !rest.any isWhitespace then none
  else
    let fileType := rest.rtakeWhile fun c => !isWhitespace c
    let split := rest.length - fileType.length - 1
    let filename := trimEnd (rest.take split)
    if filename.isEmpty || (trim (rest.drop split)).isEmpty then none else some filename

theorem parseFileLine_eq (line : Str) :
    parseFileLine line = (stripKeywordCi line fileKeyword).bind fun rest => parseReference (trimStart rest) := rfl

/-- The name in front of the last word. -/
def unquotedName (significant : Str) : Option Str :=
  if !significant.any isWhitespace then none
  else
    let fileType := significant.rtakeWhile fun c => !isWhitespace c
    let split := significant.length - fileType.length - 1
    let filename := trimEnd (significant.take split)
    if filename.isEmpty || (trim (significant.drop split)).isEmpty then none else some filename

theorem parseReference_unquoted {rest : Str} (h : rest.head? ≠ some '"') : parseReference rest = unquotedName rest := if_neg h

theorem referenceIn_unquoted {rest : Str} (h : rest.head? ≠ some '"') :
    referenceIn rest = (unquotedName (trimEnd rest)).map fun name => (name, 0) := by
  unfold referenceIn unquotedName
  rw [if_neg h]
  dsimp only
  by_cases hany : (!(trimEnd rest).any isWhitespace) = true
  · rw [if_pos hany, if_pos hany]
    rfl
  · rw [if_neg hany, if_neg hany]
    split
    · rfl
    · rfl

theorem parseReference_trimEnd {rest : Str} (hrest : ∀ c, rest.head? = some c → isWhitespace c = false) :
    parseReference (trimEnd rest) = if rest.isEmpty then none else (referenceIn rest).map Prod.fst := by
  cases rest with
  | nil => rfl
  | cons c more =>
    have hc := hrest c rfl
    rw [if_neg (by simp)]
    by_cases hquote : c = '"'
    · subst hquote
      rw [trimEnd_cons hc]
      exact extractQuoted_trimEnd more
    · have hhead : (trimEnd (c :: more)).head? ≠ some '"' := by
        rw [trimEnd_cons hc]
        simpa using hquote
      rw [parseReference_unquoted hhead, referenceIn_unquoted (by simpa using hquote), Option.map_map]
      exact Option.map_id'.symm

/-- The line behind its keyword. -/
theorem drop_keyword {line r : Str} (h : stripKeywordCi (trimStart line) fileKeyword = some r) :
    line.drop (line.length - (trimStart line).length + fileKeyword.length) = r := by
  obtain ⟨blank, word, rfl, hblank, hword, -⟩ := (stripKeywordCi_trimStart keyword_file).1 h
  have hcut : (blank ++ (word ++ r)).length - (word ++ r).length + fileKeyword.length = (blank ++ word).length := by
    simp only [List.length_append, ← hword.length]
    omega
  rw [trimStart_word hblank hword keyword_file, hcut, ← List.append_assoc, List.drop_left]

theorem span_of_strip {line r : Str} (h : stripKeywordCi (trimStart line) fileKeyword = some r) :
    cueFileReferenceSpan line = if (trimStart r).isEmpty then none
      else (referenceIn (trimStart r)).map fun p => (p.1, line.length - (trimStart r).length + p.2,
        line.length - (trimStart r).length + p.2 + p.1.length) := by
  unfold cueFileReferenceSpan
  simp only [h, drop_keyword h, Option.bind_eq_bind, Option.bind_some]
  split
  · rfl
  · cases referenceIn (trimStart r) <;> rfl

theorem strip_of_span {line : Str} {found : Str × ℕ × ℕ} (h : cueFileReferenceSpan line = some found) :
    ∃ r, stripKeywordCi (trimStart line) fileKeyword = some r := by
  unfold cueFileReferenceSpan at h
  obtain ⟨r, hr, -⟩ := Option.bind_eq_some_iff.1 h
  exact ⟨r, hr⟩

/-- **One name**: the span that is rewritten is of the name that is read. -/
theorem parseFileLine_trim (line : Str) : parseFileLine (trim line) = (cueFileReferenceSpan line).map Prod.fst := by
  rw [parseFileLine_eq, stripKeywordCi_trim keyword_file]
  cases hstrip : stripKeywordCi (trimStart line) fileKeyword with
  | none =>
    cases hspan : cueFileReferenceSpan line with
    | none => rfl
    | some found =>
      obtain ⟨r, hr⟩ := strip_of_span hspan
      rw [hstrip] at hr
      cases hr
  | some r =>
    rw [Option.map_some, Option.bind_some, trimStart_trimEnd, trim, parseReference_trimEnd fun c hc => head_trimStart hc,
      span_of_strip hstrip]
    split
    · rfl
    · rw [Option.map_map]
      rfl

/-! ## Another name in its place -/

/-- The keyword of a FILE line, with the whitespace around it. -/
structure FileFront (front : Str) : Prop where
  shape : ∃ blank word gap, front = blank ++ (word ++ gap) ∧ (∀ c ∈ blank, isWhitespace c = true) ∧ Spells word fileKeyword ∧
    gap ≠ [] ∧ ∀ c ∈ gap, isWhitespace c = true

theorem FileFront.strip {front : Str} (h : FileFront front) (rest : Str) :
    ∃ gap, (∀ c ∈ gap, isWhitespace c = true) ∧ stripKeywordCi (trimStart (front ++ rest)) fileKeyword = some (gap ++ rest) := by
  obtain ⟨blank, word, gap, rfl, hblank, hword, hne, hgap⟩ := h.shape
  refine ⟨gap, hgap, (stripKeywordCi_trimStart keyword_file).2 ⟨blank, word, by simp, hblank, hword, ?_⟩⟩
  obtain ⟨c, more, rfl⟩ := List.exists_cons_of_ne_nil hne
  exact ends_cons (hgap c List.mem_cons_self) _

/-- What a FILE line is read as. -/
theorem FileFront.parse {front : Str} (h : FileFront front) (rest : Str) :
    parseFileLine (trim (front ++ rest)) =
      if (trimStart rest).isEmpty then none else (referenceIn (trimStart rest)).map Prod.fst := by
  obtain ⟨gap, hgap, hstrip⟩ := h.strip rest
  rw [parseFileLine_trim, span_of_strip hstrip, trimStart_blank hgap]
  split
  · rfl
  · rw [Option.map_map]
    rfl

theorem FileFront.quoted {front : Str} (h : FileFront front) (rest : Str) :
    quotedReference (front ++ rest) = ((trimStart rest).head? == some '"') := by
  obtain ⟨gap, hgap, hstrip⟩ := h.strip rest
  unfold quotedReference
  rw [hstrip, Option.map_some, Option.any_some, trimStart_blank hgap]

/-- Where a reference was found. -/
theorem exists_front {line reference : Str} {start stop : ℕ} (h : cueFileReferenceSpan line = some (reference, start, stop)) :
    ∃ front rest offset, FileFront front ∧ line = front ++ rest ∧ trimStart rest = rest ∧ rest ≠ [] ∧
      referenceIn rest = some (reference, offset) ∧ start = front.length + offset ∧ stop = start + reference.length := by
  obtain ⟨r, hr⟩ := strip_of_span h
  obtain ⟨blank, word, hline, hblank, hword, hends⟩ := (stripKeywordCi_trimStart keyword_file).1 hr
  obtain ⟨gap, hgap, hgaps⟩ := exists_trimStart r
  rw [span_of_strip hr] at h
  split at h
  · cases h
  rename_i hne
  rw [List.isEmpty_iff] at hne
  have hgapne : gap ≠ [] := by
    rintro rfl
    rw [List.nil_append] at hgap
    obtain ⟨c, more, hcons⟩ := List.exists_cons_of_ne_nil hne
    have hsolid := head_trimStart (s := r) (c := c) (by rw [hcons]; rfl)
    rw [hgap, hcons] at hends
    exact absurd hends (by simp [Ends, hsolid])
  have heq : line = blank ++ (word ++ gap) ++ trimStart r := by
    rw [hline]
    nth_rewrite 1 [hgap]
    simp
  have hlen : line.length - (trimStart r).length = (blank ++ (word ++ gap)).length := by
    rw [heq, List.length_append, Nat.add_sub_cancel]
  rw [hlen] at h
  obtain ⟨⟨found, offset⟩, hfound, hpos⟩ := Option.map_eq_some_iff.1 h
  cases hpos
  exact ⟨_, _, offset, ⟨blank, word, gap, rfl, hblank, hword, hgapne, hgaps⟩, heq, trimStart_idem r, hne, hfound, rfl, rfl⟩

/-- The line of `compose_cue_file_reference_replacement`: another name where the reference was. -/
def replaceReference (line name : Str) (start stop : ℕ) : Str := line.take start ++ name ++ line.drop stop

/-- A name that is read back from a line. Quotes keep any name; without them it must not be empty and must not be
trimmed. (An empty name is also read back in front of a file type that starts with two quotes.) -/
def Representable (line name : Str) : Prop :=
  quotedReference line = true ∨ (name ≠ [] ∧ trim name = name) ∨ (name = [] ∧ ['"', '"'] <+: fileType line)

theorem trim_blank {blank : Str} (h : ∀ c ∈ blank, isWhitespace c = true) : trim blank = [] := by
  have hstart : trimStart blank = [] := List.dropWhile_eq_nil_iff.2 h
  unfold trim
  rw [hstart]
  rfl

/-- A name with something in it, in front of a file type. -/
theorem FileFront.parse_solid {front name sep type trail rest reference : Str} (h : FileFront front)
    (hrest : Unquoted rest reference sep type trail) (hquote : '"' ∉ name) (hsolid : ∃ c ∈ name, isWhitespace c = false) :
    parseFileLine (trim (front ++ (name ++ (sep ++ (type ++ trail))))) = some (trim name) := by
  obtain ⟨blank, hname, hblank⟩ := exists_trimStart name
  cases hstart : trimStart name with
  | nil =>
    obtain ⟨c, hc, hcs⟩ := hsolid
    rw [hstart, List.append_nil] at hname
    rw [hblank c (hname ▸ hc)] at hcs
    cases hcs
  | cons c more =>
    have hc : isWhitespace c = false := head_trimStart (s := name) (by rw [hstart]; rfl)
    have hcq : c ≠ '"' := by
      rintro rfl
      exact hquote (by rw [hname, hstart]; simp)
    have hsplit : trimStart (name ++ (sep ++ (type ++ trail))) = (c :: more) ++ (sep ++ (type ++ trail)) := by
      rw [hname, hstart, List.append_assoc, trimStart_blank hblank, List.cons_append, trimStart_cons hc]
    have hunquoted : Unquoted ((c :: more) ++ (sep ++ (type ++ trail))) (c :: more) sep type trail :=
      ⟨rfl, hrest.sep_ne, hrest.sep_blank, hrest.type_ne, hrest.type_word, hrest.trail_blank⟩
    rw [h.parse, hsplit, hunquoted.referenceIn_eq (by simpa using hcq), trim, hstart, trimEnd_cons hc]
    rfl

/-- A blank name leaves the file type, which is no reference unless it starts with quotes. -/
theorem FileFront.parse_blank {front name sep type trail rest reference : Str} (h : FileFront front)
    (hrest : Unquoted rest reference sep type trail) (hblank : ∀ c ∈ name, isWhitespace c = true) :
    parseFileLine (trim (front ++ (name ++ (sep ++ (type ++ trail))))) = some name ↔ name = [] ∧ ['"', '"'] <+: type := by
  obtain ⟨c, more, rfl⟩ := List.exists_cons_of_ne_nil hrest.type_ne
  have hc := hrest.type_word c List.mem_cons_self
  have hmore : ∀ d ∈ more, isWhitespace d = false := fun d hd => hrest.type_word d (List.mem_cons_of_mem _ hd)
  rw [h.parse, trimStart_blank hblank, trimStart_blank hrest.sep_blank, List.cons_append, trimStart_cons hc, if_neg (by simp)]
  by_cases hquote : c = '"'
  · subst hquote
    rw [referenceIn_quote]
    by_cases hclosed : '"' ∈ more
    · obtain ⟨inner, tail, rfl, hinner⟩ := List.eq_append_cons_of_mem hclosed
      rw [if_pos (by simp), List.append_assoc, List.cons_append, takeWhile_quote hinner, Option.map_some, Option.some.injEq]
      constructor
      · rintro rfl
        cases inner with
        | nil => simp
        | cons d inner =>
          have hd := hmore d (by simp)
          rw [hblank d List.mem_cons_self] at hd
          cases hd
      · rintro ⟨rfl, hstart⟩
        cases inner with
        | nil => rfl
        | cons d inner =>
          simp only [List.cons_append, List.cons_prefix_cons, true_and] at hstart
          exact absurd hstart.1 fun heq => hinner (heq ▸ List.mem_cons_self)
    · have hopen : '"' ∉ more ++ trail := by
        rw [List.mem_append, not_or]
        exact ⟨hclosed, fun hmem => absurd (hrest.trail_blank _ hmem) (by decide)⟩
      rw [if_neg hopen]
      refine iff_of_false (by simp) ?_
      rintro ⟨-, hstart⟩
      rw [List.cons_prefix_cons] at hstart
      exact hclosed (hstart.2.subset List.mem_cons_self)
  · have hword : trimEnd (c :: (more ++ trail)) = c :: more := by
      rw [← List.cons_append, trimEnd_blank hrest.trail_blank]
      exact trimEnd_word hrest.type_ne hrest.type_word []
    have hany : (c :: more).any isWhitespace = false := List.any_eq_false.2 fun d hd => by
      rw [hrest.type_word d hd]
      exact Bool.false_ne_true
    rw [referenceIn_unquoted (by simpa using hquote), hword]
    unfold unquotedName
    rw [hany]
    refine iff_of_false (by simp) ?_
    rintro ⟨-, hstart⟩
    rw [List.cons_prefix_cons] at hstart
    exact hquote hstart.1.symm

/-- **What is read back**: a name without quotes and line breaks is read where it was put, if it is representable there. -/
theorem parse_replaceReference {line reference name : Str} {start stop : ℕ}
    (h : cueFileReferenceSpan line = some (reference, start, stop)) (hname : '"' ∉ name) :
    parseFileLine (trim (replaceReference line name start stop)) = some name ↔ Representable line name := by
  obtain ⟨front, rest, offset, hfront, rfl, hrest, hne, href, rfl, rfl⟩ := exists_front h
  have hline : replaceReference (front ++ rest) name (front.length + offset) (front.length + offset + reference.length) =
      front ++ (rest.take offset ++ (name ++ rest.drop (offset + reference.length))) := by
    unfold replaceReference
    rw [List.take_length_add_append, Nat.add_assoc, List.drop_length_add_append]
    simp
  rw [hline]
  by_cases hquote : rest.head? = some '"'
  · obtain ⟨more, rfl⟩ : ∃ more, rest = '"' :: more := by
      cases rest with
      | nil => cases hquote
      | cons c more => exact ⟨more, by rw [Option.some.inj hquote]⟩
    rw [referenceIn_quote] at href
    split at href
    case isFalse => cases href
    rename_i hclosed
    obtain ⟨inner, tail, rfl, hinner⟩ := List.eq_append_cons_of_mem hclosed
    rw [takeWhile_quote hinner] at href
    cases href
    have hnew : ('"' :: (reference ++ '"' :: tail)).take 1 ++ (name ++ ('"' :: (reference ++ '"' :: tail)).drop (1 + reference.length)) =
        '"' :: (name ++ '"' :: tail) := by
      rw [Nat.add_comm, List.drop_succ_cons, List.drop_left]
      rfl
    refine iff_of_true ?_ (.inl ?_)
    · rw [hnew, hfront.parse, trimStart_cons (by decide), if_neg (by simp), referenceIn_quoted hname]
      rfl
    · rw [hfront.quoted, trimStart_cons (by decide)]
      rfl
  · obtain ⟨rfl, hrefne, -, sep, type, trail, hunquoted⟩ := unquoted_of_referenceIn hquote href
    have hnew : rest.take 0 ++ (name ++ rest.drop (0 + reference.length)) = name ++ (sep ++ (type ++ trail)) := by
      rw [hunquoted.eq, Nat.zero_add, List.drop_left]
      rfl
    have hnotquoted : quotedReference (front ++ rest) = false := by
      rw [hfront.quoted, hrest]
      simpa using hquote
    have htype : fileType (front ++ rest) = type := by
      unfold fileType
      rw [hunquoted.eq, show front ++ (reference ++ (sep ++ (type ++ trail))) = (front ++ reference ++ (sep ++ type)) ++ trail by simp,
        trimEnd_blank hunquoted.trail_blank, ← List.append_assoc, trimEnd_word hunquoted.type_ne hunquoted.type_word,
        List.append_assoc, rtakeWhile_word hunquoted.type_word hunquoted.sep_ne hunquoted.sep_blank]
    unfold Representable
    rw [hnew, hnotquoted, htype]
    by_cases hsolid : ∃ c ∈ name, isWhitespace c = false
    · have hnil : name ≠ [] := by
        rintro rfl
        obtain ⟨c, hc, -⟩ := hsolid
        cases hc
      rw [hfront.parse_solid hunquoted hname hsolid]
      simp [hnil]
    · have hblank : ∀ c ∈ name, isWhitespace c = true := fun c hc => by
        by_contra hcs
        exact hsolid ⟨c, hc, Bool.not_eq_true _ ▸ hcs⟩
      have htrim : ¬ (name ≠ [] ∧ trim name = name) := by
        rintro ⟨hnil, heq⟩
        exact hnil (heq ▸ trim_blank hblank)
      rw [hfront.parse_blank hunquoted hblank]
      simp only [Bool.false_eq_true, false_or]
      exact ⟨.inr, fun hor => hor.resolve_left htrim⟩

end Cue
