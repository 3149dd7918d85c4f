import Tonepoet.Cue.MetadataBlock

/-!
# The metadata block is read back

A quoted component gives its characters back one escape at a time; a bare one has nothing in it that the
reader would trim, split or take for a quote. A record is then one line with no control character, so it
survives `str::lines`, and the maps grow back in key order, one value at a time.
-/

namespace Cue

open Rust OrderedMap

/-! ## Quoted components -/

theorem parseQuotedRest_close (out rest : Str) : parseQuotedRest out ('"' :: rest) = some (out, rest) := by
  rw [parseQuotedRest, if_pos rfl]

theorem parseQuotedRest_plain {c : Char} (hquote : c ≠ '"') (hbackslash : c ≠ '\\') (out rest : Str) :
    parseQuotedRest out (c :: rest) = parseQuotedRest (out ++ [c]) rest := by
  rw [parseQuotedRest, if_neg hquote, if_neg hbackslash]

theorem parseQuotedRest_escaped {c : Char} {input rest : Str} (h : takeEscaped input = some (c, rest)) (out : Str) :
    parseQuotedRest out ('\\' :: input) = parseQuotedRest (out ++ [c]) rest := by
  rw [parseQuotedRest, if_neg (by decide), if_pos rfl]
  split
  · next hnone => rw [h] at hnone; cases hnone
  · next hsome =>
    rw [h] at hsome
    cases hsome
    rfl

theorem takeHexDigits_append {digits : Str} (hdigits : ∀ d ∈ digits, isAsciiHexdigit d = true) (rest : Str) :
    ∀ {hex : Str}, (hex ++ digits).length ≤ 6 → takeHexDigits hex (digits ++ '\x7d' :: rest) = some (hex ++ digits, rest) := by
  induction digits with
  | nil =>
    intro hex _
    rw [List.nil_append, List.append_nil, takeHexDigits, if_pos rfl]
  | cons d digits ih =>
    intro hex hlen
    have hd := hdigits d List.mem_cons_self
    have hbrace : d ≠ '\x7d' := fun h => by rw [h] at hd; exact absurd hd (by decide)
    have hshort : ¬ hex.length ≥ 6 := by
      rw [List.length_append, List.length_cons] at hlen
      omega
    rw [List.cons_append, takeHexDigits, if_neg hbrace, if_neg (by simp [hd, hshort]),
      ih (fun d' hd' => hdigits d' (List.mem_cons_of_mem _ hd')) (by simpa using hlen)]
    simp

/-- The control characters all lie below `\u{A0}`, so their escapes are checked one by one. -/
theorem formatUpperHex_control : ∀ n < 160, (formatUpperHex n).all isAsciiHexdigit = true ∧ (formatUpperHex n).length ≤ 6 ∧
    (formatUpperHex n).isEmpty = false ∧ fromHex (formatUpperHex n) = n ∧ (formatUpperHex n).any isControl = false := by
  decide +kernel

theorem lt_of_isControl {c : Char} (h : isControl c = true) : c.toNat < 160 := by
  simp only [isControl, Bool.or_eq_true, Bool.and_eq_true, decide_eq_true_eq] at h
  omega

theorem charFromU32_toNat (c : Char) : charFromU32 c.toNat = some c := by
  rw [charFromU32, if_pos (show c.toNat.isValidChar from c.valid), Char.ofNat_toNat]

theorem takeEscaped_control {c : Char} (h : isControl c = true) (rest : Str) :
    takeEscaped ('u' :: '\x7b' :: (formatUpperHex c.toNat ++ '\x7d' :: rest)) = some (c, rest) := by
  obtain ⟨hdigits, hlen, hne, hvalue, -⟩ := formatUpperHex_control c.toNat (lt_of_isControl h)
  rw [takeEscaped, if_neg (by decide), if_neg (by decide), if_neg (by decide), if_neg (by decide), if_neg (by decide), if_pos rfl,
    takeUnicodeEscape, if_neg (by decide), takeHexDigits_append (List.all_eq_true.1 hdigits) rest (by simpa using hlen)]
  dsimp only
  rw [List.nil_append, hne, if_neg Bool.false_ne_true, hvalue, charFromU32_toNat]
  rfl

/-- What an escape stands for is what was escaped. -/
theorem parseQuotedRest_escapeChar (c : Char) (out rest : Str) :
    parseQuotedRest out (escapeChar c ++ rest) = parseQuotedRest (out ++ [c]) rest := by
  rw [escapeChar]
  split_ifs with hbackslash hquote hlf hcr htab hcontrol
  · rw [hbackslash]
    exact parseQuotedRest_escaped rfl out
  · rw [hquote]
    exact parseQuotedRest_escaped rfl out
  · rw [hlf]
    exact parseQuotedRest_escaped rfl out
  · rw [hcr]
    exact parseQuotedRest_escaped rfl out
  · rw [htab]
    exact parseQuotedRest_escaped rfl out
  · rw [show ['\\', 'u', '\x7b'] ++ formatUpperHex c.toNat ++ ['\x7d'] ++ rest =
      '\\' :: 'u' :: '\x7b' :: (formatUpperHex c.toNat ++ '\x7d' :: rest) by simp]
    exact parseQuotedRest_escaped (takeEscaped_control hcontrol rest) out
  · exact parseQuotedRest_plain hquote hbackslash out rest

theorem parseQuotedRest_flatMap (rest : Str) : ∀ (value out : Str),
    parseQuotedRest out (value.flatMap escapeChar ++ '"' :: rest) = some (out ++ value, rest)
  | [], out => by rw [List.flatMap_nil, List.nil_append, List.append_nil, parseQuotedRest_close]
  | c :: value, out => by
    rw [List.flatMap_cons, List.append_assoc, parseQuotedRest_escapeChar, parseQuotedRest_flatMap rest value, List.append_assoc]
    rfl

theorem parseQuotedComponent_quoted (value rest : Str) :
    parseQuotedComponent ('"' :: (value.flatMap escapeChar ++ ['"'] ++ rest)) = some (value, rest) := by
  rw [parseQuotedComponent, if_neg (by decide), List.append_assoc]
  exact parseQuotedRest_flatMap rest value []

/-! ## What a component looks like -/

/-- A bare component: nothing in it that the reader would trim, split or take for a quote. -/
structure Bare (value : Str) (key : Bool) : Prop where
  head : ∃ c cs, value = c :: cs ∧ c ≠ '"' ∧ isWhitespace c = false
  token : key = true → ∀ c ∈ value, isWhitespace c = false
  control : ∀ c ∈ value, isControl c = false

theorem bare_of_not_quotes {value : Str} {key : Bool} (h : componentRequiresQuotes value key = false) : Bare value key := by
  rw [componentRequiresQuotes] at h
  split_ifs at h with hstart htoken hends
  rw [Bool.or_eq_true, not_or, List.isEmpty_iff, beq_iff_eq] at hstart
  rw [Bool.and_eq_true, not_and] at htoken hends
  obtain ⟨c, cs, rfl⟩ := List.exists_cons_of_ne_nil hstart.1
  have hspaces : key = true → ∀ d ∈ c :: cs, isWhitespace d = false := fun hkey d hd => by
    have hany := htoken hkey
    rw [List.any_eq_true, not_exists] at hany
    simpa using fun hd' => hany d ⟨hd, hd'⟩
  refine ⟨⟨c, cs, rfl, fun hc => hstart.2 (by rw [hc]; rfl), ?_⟩, hspaces, fun d hd => ?_⟩
  · cases key with
    | true => exact hspaces rfl c List.mem_cons_self
    | false =>
      have hhead := hends rfl
      rw [Bool.or_eq_true, not_or] at hhead
      simpa using hhead.1
  · rw [List.any_eq_false] at h
    simpa using h d hd

/-- A component is written bare or in quotes. -/
theorem formatComponent_cases (value : Str) (key : Bool) :
    formatComponent value key = '"' :: (value.flatMap escapeChar ++ ['"']) ∨ formatComponent value key = value ∧ Bare value key := by
  rw [formatComponent]
  cases hquotes : componentRequiresQuotes value key with
  | true => exact .inl rfl
  | false => exact .inr ⟨rfl, bare_of_not_quotes hquotes⟩

theorem isControl_escapeChar {c d : Char} (h : d ∈ escapeChar c) : isControl d = false := by
  rw [escapeChar] at h
  split_ifs at h with hbackslash hquote hlf hcr htab hcontrol
  · exact (eq_false_of_any (by decide) : ∀ d ∈ ['\\', '\\'], isControl d = false) d h
  · exact (eq_false_of_any (by decide) : ∀ d ∈ ['\\', '"'], isControl d = false) d h
  · exact (eq_false_of_any (by decide) : ∀ d ∈ ['\\', 'n'], isControl d = false) d h
  · exact (eq_false_of_any (by decide) : ∀ d ∈ ['\\', 'r'], isControl d = false) d h
  · exact (eq_false_of_any (by decide) : ∀ d ∈ ['\\', 't'], isControl d = false) d h
  · rw [List.mem_append, List.mem_append] at h
    rcases h with (h | h) | h
    · exact (eq_false_of_any (by decide) : ∀ d ∈ ['\\', 'u', '\x7b'], isControl d = false) d h
    · have hdigits := (formatUpperHex_control c.toNat (lt_of_isControl hcontrol)).2.2.2.2
      rw [List.any_eq_false] at hdigits
      simpa using hdigits d h
    · rw [List.mem_singleton.1 h]
      rfl
  · rw [List.mem_singleton.1 h]
    simpa using hcontrol

theorem isControl_formatComponent {value : Str} {key : Bool} {c : Char} (h : c ∈ formatComponent value key) :
    isControl c = false := by
  rcases formatComponent_cases value key with heq | ⟨heq, hbare⟩
  · rw [heq, List.mem_cons, List.mem_append, List.mem_singleton] at h
    rcases h with rfl | h | rfl
    · rfl
    · obtain ⟨d, -, hc⟩ := List.mem_flatMap.1 h
      exact isControl_escapeChar hc
    · rfl
  · exact hbare.control c (heq ▸ h)

/-- The first character, for the trimming before a component. -/
theorem formatComponent_head (value : Str) (key : Bool) :
    ∃ c cs, formatComponent value key = c :: cs ∧ isWhitespace c = false := by
  rcases formatComponent_cases value key with heq | ⟨heq, hbare⟩
  · exact ⟨_, _, heq, rfl⟩
  · obtain ⟨c, cs, hvalue, -, hspace⟩ := hbare.head
    exact ⟨c, cs, heq.trans hvalue, hspace⟩

/-! ## Reading a component -/

theorem takeToken_append {token : Str} (hne : token ≠ []) (htoken : ∀ c ∈ token, isWhitespace c = false) (rest : Str) :
    takeToken (token ++ ' ' :: rest) = some (token, ' ' :: rest) := by
  obtain ⟨c, cs, rfl⟩ := List.exists_cons_of_ne_nil hne
  have htake : (c :: cs ++ ' ' :: rest).takeWhile (fun c => !isWhitespace c) = c :: cs := by
    rw [List.takeWhile_append_of_pos fun d hd => by rw [htoken d hd]; rfl,
      List.takeWhile_cons_of_neg (by decide), List.append_nil]
  rw [takeToken, List.cons_append, trimStart_cons (htoken c List.mem_cons_self), ← List.cons_append, htake,
    List.drop_left]
  rfl

theorem takeToken_space (input : Str) : takeToken (' ' :: input) = takeToken input := by
  rw [takeToken, takeToken, trimStart_space]

theorem takeComponent_key (key rest : Str) :
    takeComponent (' ' :: (formatComponent key true ++ ' ' :: rest)) true = some (key, ' ' :: rest) := by
  obtain ⟨c, cs, hhead, hspace⟩ := formatComponent_head key true
  rw [takeComponent, trimStart_space, hhead, List.cons_append, trimStart_cons hspace, ← List.cons_append, ← hhead]
  rcases formatComponent_cases key true with heq | ⟨heq, hbare⟩
  · rw [heq, List.cons_append, if_pos List.head?_cons]
    exact parseQuotedComponent_quoted key _
  · obtain ⟨d, ds, hkey, hquote, -⟩ := hbare.head
    have hfirst : (key ++ ' ' :: rest).head? ≠ some '"' := by
      rw [hkey, List.cons_append, List.head?_cons, ne_eq, Option.some.injEq]
      exact hquote
    rw [heq, if_neg hfirst, if_pos rfl]
    exact takeToken_append (by rw [hkey]; exact List.cons_ne_nil _ _) (hbare.token rfl) rest

theorem parseRecordComponent_key {key : Str} (h : (trim key).isEmpty = false) (rest : Str) :
    parseRecordComponent (' ' :: (formatComponent key true ++ ' ' :: rest)) true = some (key, ' ' :: rest) := by
  rw [parseRecordComponent, takeComponent_key]
  exact if_neg (by rw [Bool.true_and, h]; exact Bool.false_ne_true)

theorem parseValue_formatComponent (value : Str) : parseValue (' ' :: formatComponent value false) = some value := by
  obtain ⟨c, cs, hhead, hspace⟩ := formatComponent_head value false
  have hblank : (c == ' ' || c == '	') = false := by
    rw [Bool.or_eq_false_iff, beq_eq_false_iff_ne, beq_eq_false_iff_ne]
    constructor
    · rintro rfl
      cases hspace
    · rintro rfl
      cases hspace
  rw [parseValue, if_neg (by decide), hhead, List.dropWhile_cons_of_neg (by rw [hblank]; exact Bool.false_ne_true), ← hhead]
  dsimp only
  rcases formatComponent_cases value false with heq | ⟨heq, hbare⟩
  · have hquoted := parseQuotedComponent_quoted value []
    rw [List.append_nil] at hquoted
    rw [heq, if_pos List.head?_cons, hquoted]
    rfl
  · obtain ⟨d, ds, hvalue, hquote, -⟩ := hbare.head
    have hfirst : value.head? ≠ some '"' := by
      rw [hvalue, List.head?_cons, ne_eq, Option.some.injEq]
      exact hquote
    rw [heq, if_neg hfirst]

/-! ## Reading a record -/

theorem stripKeywordCi_append (keyword rest : Str) : stripKeywordCi (keyword ++ ' ' :: rest) keyword = some (' ' :: rest) := by
  have hlen : ¬ (keyword ++ ' ' :: rest).length < keyword.length := by
    rw [List.length_append]
    omega
  have heq : eqIgnoreAsciiCase keyword keyword = true := by
    rw [eqIgnoreAsciiCase]
    exact beq_self_eq_true _
  rw [stripKeywordCi, if_neg hlen, List.take_left, List.drop_left, heq]
  rfl

/-- A record of the namespace, whatever its payload. -/
theorem metadataPayload_record {c : Char} (hc : isWhitespace c = false) (payload : Str) :
    metadataPayload (recordStart ++ c :: payload) = some (c :: payload) := by
  have hline : trimStart (recordStart ++ c :: payload) = remKeyword ++ ' ' :: (tonepoetMetadataNamespace ++ ' ' :: c :: payload) := rfl
  have hnamespace : trimStart (' ' :: (tonepoetMetadataNamespace ++ ' ' :: c :: payload)) =
      tonepoetMetadataNamespace ++ ' ' :: c :: payload := rfl
  rw [metadataPayload, hline, stripKeywordCi_append]
  simp only [Option.bind_eq_bind, Option.bind_some, hnamespace, stripKeywordCi_append, trimStart_space, trimStart_cons hc,
    pure]

theorem parseMetadataLine_begin : parseMetadataLine (recordStart ++ beginKeyword) = some .beginBlock := by decide +kernel

theorem parseMetadataLine_end : parseMetadataLine (recordStart ++ endKeyword) = some .endBlock := by decide +kernel

/-- A payload of more than one word is neither `BEGIN` nor `END`, by its first letter. -/
theorem not_eqIgnoreAsciiCase_trim {c d : Char} (hspace : isWhitespace c = false) (hd : c.toLower ≠ d.toLower) (payload word : Str) :
    eqIgnoreAsciiCase (trim (c :: payload)) (d :: word) = false := by
  rw [trim_cons hspace, eqIgnoreAsciiCase, List.map_cons, List.map_cons, beq_eq_false_iff_ne]
  intro h
  exact hd (List.cons.inj h).1

variable {key : Str}

/-- A record of the album. -/
theorem parseMetadataLine_album (hkey : (trim key).isEmpty = false) (value : Str) :
    parseMetadataLine (formatRecord ['A'] key value) = some (.album key value) := by
  have hline : formatRecord ['A'] key value =
      recordStart ++ 'A' :: (' ' :: (formatComponent key true ++ ' ' :: formatComponent value false)) := by
    rw [formatRecord, List.append_assoc, List.singleton_append]
  have hscope := @takeToken_append ['A'] (by decide) (eq_false_of_any (by decide)) (formatComponent key true ++ ' ' :: formatComponent value false)
  rw [List.singleton_append] at hscope
  rw [parseMetadataLine, hline, @metadataPayload_record 'A' rfl]
  simp only [Option.bind_eq_bind, Option.bind_some]
  rw [beginKeyword, endKeyword, @not_eqIgnoreAsciiCase_trim 'A' 'B' rfl (by decide),
    @not_eqIgnoreAsciiCase_trim 'A' 'E' rfl (by decide), if_neg Bool.false_ne_true, if_neg Bool.false_ne_true, hscope,
    Option.bind_some]
  dsimp only
  rw [if_pos (by decide), parseRecordComponent_key hkey, Option.bind_some]
  dsimp only
  rw [parseValue_formatComponent]
  rfl

/-- A record of a track. -/
theorem parseMetadataLine_track {index : ℕ} (hindex : index + 1 ≤ usizeMax) (hkey : (trim key).isEmpty = false) (value : Str) :
    parseMetadataLine (formatRecord ('T' :: ' ' :: formatNat (index + 1)) key value) = some (.track (index + 1) key value) := by
  have hline : formatRecord ('T' :: ' ' :: formatNat (index + 1)) key value =
      recordStart ++ 'T' :: (' ' :: (formatNat (index + 1) ++ ' ' :: (formatComponent key true ++ ' ' :: formatComponent value false))) := by
    rw [formatRecord, List.append_assoc, List.cons_append, List.cons_append]
  have hscope := @takeToken_append ['T'] (by decide) (eq_false_of_any (by decide))
    (formatNat (index + 1) ++ ' ' :: (formatComponent key true ++ ' ' :: formatComponent value false))
  rw [List.singleton_append] at hscope
  have hdigits : ∀ c ∈ formatNat (index + 1), isWhitespace c = false := fun c hc =>
    isWhitespace_of_isDigit (isDigit_of_mem_formatNat hc)
  have hne : formatNat (index + 1) ≠ [] := Nat.toDigits_ne_nil
  have hordinal := takeToken_append hne hdigits (formatComponent key true ++ ' ' :: formatComponent value false)
  rw [parseMetadataLine, hline, @metadataPayload_record 'T' rfl]
  simp only [Option.bind_eq_bind, Option.bind_some]
  rw [beginKeyword, endKeyword, @not_eqIgnoreAsciiCase_trim 'T' 'B' rfl (by decide),
    @not_eqIgnoreAsciiCase_trim 'T' 'E' rfl (by decide), if_neg Bool.false_ne_true, if_neg Bool.false_ne_true, hscope,
    Option.bind_some]
  dsimp only
  rw [if_neg (by decide), if_pos (by decide), takeToken_space, hordinal, Option.bind_some]
  dsimp only
  rw [parseUsize_formatNat hindex, Option.bind_some, if_neg (Nat.succ_ne_zero index), parseRecordComponent_key hkey, Option.bind_some]
  dsimp only
  rw [parseValue_formatComponent]
  rfl

/-! ## Lines -/

theorem isControl_recordStart : ∀ c ∈ recordStart, isControl c = false := eq_false_of_any (by decide)

theorem isControl_formatRecord {scope : Str} (hscope : ∀ c ∈ scope, isControl c = false) {value : Str} {c : Char}
    (h : c ∈ formatRecord scope key value) : isControl c = false := by
  rw [formatRecord, List.mem_append, List.mem_append, List.mem_cons, List.mem_append, List.mem_cons] at h
  rcases h with (h | h) | rfl | h | rfl | h
  · exact isControl_recordStart c h
  · exact hscope c h
  · rfl
  · exact isControl_formatComponent h
  · rfl
  · exact isControl_formatComponent h

theorem isControl_scope (index : ℕ) : ∀ c ∈ 'T' :: ' ' :: formatNat (index + 1), isControl c = false := by
  intro c hc
  rcases List.mem_cons.1 hc with rfl | hc
  · rfl
  rcases List.mem_cons.1 hc with rfl | hc
  · rfl
  · exact isControl_of_isDigit (isDigit_of_mem_formatNat hc)

theorem mem_formatScope {scope : Str} {metadata : CueUserMetadata} {line : Str} (h : line ∈ formatScope scope metadata) :
    ∃ key value, line = formatRecord scope key value := by
  obtain ⟨⟨key, values⟩, -, h⟩ := List.mem_flatMap.1 h
  dsimp only at h
  split_ifs at h
  · cases h
  · obtain ⟨value, -, rfl⟩ := List.mem_map.1 h
    exact ⟨key, value, rfl⟩

/-- Every line of the block starts as a record and holds no control character. -/
theorem mem_formatTonepoetMetadataBlock {album : CueUserMetadata} {tracks : List CueUserMetadata} {line : Str}
    (h : line ∈ formatTonepoetMetadataBlock album tracks) : line ≠ [] ∧ ∀ c ∈ line, isControl c = false := by
  have hrecord : ∀ scope, (∀ c ∈ scope, isControl c = false) → (∃ key value, line = formatRecord scope key value) →
      line ≠ [] ∧ ∀ c ∈ line, isControl c = false := by
    rintro scope hscope ⟨key, value, rfl⟩
    exact ⟨List.cons_ne_nil _ _, fun c hc => isControl_formatRecord hscope hc⟩
  rw [formatTonepoetMetadataBlock, List.mem_append, List.mem_append, List.mem_append] at h
  rcases h with ((h | h) | h) | h
  · rw [List.mem_singleton.1 h]
    exact ⟨List.cons_ne_nil _ _, eq_false_of_any (by decide)⟩
  · exact hrecord ['A'] (eq_false_of_any (by decide)) (mem_formatScope h)
  · obtain ⟨⟨metadata, index⟩, -, h⟩ := List.mem_flatMap.1 h
    exact hrecord _ (isControl_scope index) (mem_formatScope h)
  · rw [List.mem_singleton.1 h]
    exact ⟨List.cons_ne_nil _ _, eq_false_of_any (by decide)⟩

/-- Joined and split, the block is the same lines. -/
theorem lines_formatTonepoetMetadataBlock (album : CueUserMetadata) (tracks : List CueUserMetadata) (ending : LineEnding) :
    lines (ending.text.intercalate (formatTonepoetMetadataBlock album tracks)) = formatTonepoetMetadataBlock album tracks := by
  refine lines_intercalate ending fun line hline => ?_
  obtain ⟨hne, hcontrol⟩ := mem_formatTonepoetMetadataBlock hline
  exact ⟨fun h => absurd (hcontrol _ h) (by decide), fun h => absurd (hcontrol _ h) (by decide), hne⟩

/-! ## The maps grow back -/

/-- Metadata the block is meant for. -/
structure Recordable (metadata : CueUserMetadata) : Prop where
  key : ∀ e ∈ metadata.entries, (trim e.1).isEmpty = false
  values : ∀ e ∈ metadata.entries, e.2 ≠ []
  distinct : metadata.entries.Pairwise fun a b => eqIgnoreAsciiCase a.1 b.1 = false

/-- The key and the value of each record, in order. -/
def records (entries : List (Str × List Str)) : List (Str × Str) := entries.flatMap fun e => e.2.map fun value => (e.1, value)

theorem formatScope_eq {metadata : CueUserMetadata} (h : ∀ e ∈ metadata.entries, (trim e.1).isEmpty = false) (scope : Str) :
    formatScope scope metadata = (records metadata.entries).map fun p => formatRecord scope p.1 p.2 := by
  rw [formatScope, records, List.map_flatMap]
  refine List.flatMap_congr fun e he => ?_
  dsimp only
  rw [h e he, if_neg Bool.false_ne_true, List.map_map]
  rfl

theorem key_of_mem_records {entries : List (Str × List Str)} (h : ∀ e ∈ entries, (trim e.1).isEmpty = false) {p : Str × Str}
    (hp : p ∈ records entries) : (trim p.1).isEmpty = false := by
  obtain ⟨e, he, hp⟩ := List.mem_flatMap.1 hp
  obtain ⟨value, -, rfl⟩ := List.mem_map.1 hp
  exact h e he

def pushAll (metadata : CueUserMetadata) (ps : List (Str × Str)) : CueUserMetadata :=
  ps.foldl (fun metadata p => userMetadataPush metadata p.1 p.2) metadata

variable {m : CueUserMetadata} {init : List (Str × List Str)}

theorem find?_other (hother : ∀ e ∈ init, eqIgnoreAsciiCase e.1 key = false) :
    (init.map Prod.fst).find? (fun candidate => eqIgnoreAsciiCase candidate key) = none := by
  rw [List.find?_eq_none]
  intro k hk
  obtain ⟨e, he, rfl⟩ := List.mem_map.1 hk
  rw [hother e he]
  exact Bool.false_ne_true

theorem userMetadataPush_new (h : m.entries = init) (habove : ∀ e ∈ init, e.1 < key)
    (hother : ∀ e ∈ init, eqIgnoreAsciiCase e.1 key = false) (value : Str) :
    (userMetadataPush m key value).entries = init ++ [(key, [value])] := by
  rw [userMetadataPush, Map.keys, h, find?_other hother, Option.getD_none, Map.entries_upsert_above _ (h ▸ habove), h]
  rfl

theorem userMetadataPush_again {values : List Str} (h : m.entries = init ++ [(key, values)])
    (hother : ∀ e ∈ init, eqIgnoreAsciiCase e.1 key = false) (value : Str) :
    (userMetadataPush m key value).entries = init ++ [(key, values ++ [value])] := by
  have hself : eqIgnoreAsciiCase key key = true := beq_self_eq_true _
  have hfind : ((init ++ [(key, values)]).map Prod.fst).find? (fun candidate => eqIgnoreAsciiCase candidate key) = some key := by
    rw [List.map_append, List.find?_append, find?_other hother, Option.none_or, List.map_singleton, List.find?_singleton, if_pos hself]
  rw [userMetadataPush, Map.keys, h, hfind, Option.getD_some, Map.entries_upsert_last _ h]
  rfl

theorem pushAll_again (hother : ∀ e ∈ init, eqIgnoreAsciiCase e.1 key = false) : ∀ (more : List Str) {m : CueUserMetadata}
    {values : List Str}, m.entries = init ++ [(key, values)] →
      (pushAll m (more.map fun value => (key, value))).entries = init ++ [(key, values ++ more)]
  | [], _, _, h => by rw [List.append_nil]; exact h
  | value :: more, m, values, h => by
    rw [List.map_cons, pushAll, List.foldl_cons, ← pushAll, pushAll_again hother more (userMetadataPush_again h hother value),
      List.append_assoc]
    rfl

theorem pushAll_append (m : CueUserMetadata) (ps qs : List (Str × Str)) : pushAll m (ps ++ qs) = pushAll (pushAll m ps) qs :=
  List.foldl_append

/-- The records of a map, pushed one by one, are the map again. -/
theorem pushAll_records : ∀ {rest : List (Str × List Str)} {init : List (Str × List Str)} {m : CueUserMetadata}, m.entries = init →
    ((init ++ rest).Pairwise fun a b => a.1 < b.1) → ((init ++ rest).Pairwise fun a b => eqIgnoreAsciiCase a.1 b.1 = false) →
    (∀ e ∈ rest, e.2 ≠ []) → (pushAll m (records rest)).entries = init ++ rest
  | [], _, _, h, _, _, _ => by rw [List.append_nil]; exact h
  | (key, []) :: _, _, _, _, _, _, hvalues => absurd rfl (hvalues (key, []) List.mem_cons_self)
  | (key, value :: more) :: rest, init, m, h, hsorted, hdistinct, hvalues => by
    have habove : ∀ e ∈ init, e.1 < key := fun e he =>
      (List.pairwise_append.1 hsorted).2.2 e he _ List.mem_cons_self
    have hother : ∀ e ∈ init, eqIgnoreAsciiCase e.1 key = false := fun e he =>
      (List.pairwise_append.1 hdistinct).2.2 e he _ List.mem_cons_self
    have hentry : (pushAll m ((value :: more).map fun value => (key, value))).entries = init ++ [(key, value :: more)] := by
      rw [List.map_cons, pushAll, List.foldl_cons, ← pushAll,
        pushAll_again hother more (userMetadataPush_new h habove hother value)]
      rfl
    rw [List.append_cons] at hsorted hdistinct
    rw [records, List.flatMap_cons, ← records, pushAll_append,
      pushAll_records hentry hsorted hdistinct fun e he => hvalues e (List.mem_cons_of_mem _ he), ← List.append_cons]

theorem Recordable.pushAll_eq {metadata : CueUserMetadata} (h : Recordable metadata) :
    pushAll Map.empty (records metadata.entries) = metadata :=
  Map.ext (pushAll_records rfl metadata.sorted h.distinct h.values)

/-! ## The block is read back -/

variable {ps : List (Str × Str)}

/-- The records of the album inside the block. -/
theorem foldl_album (hkeys : ∀ p ∈ ps, (trim p.1).isEmpty = false) (parsed : ParsedTonepoetMetadata) :
    (ps.map fun p => formatRecord ['A'] p.1 p.2).foldl metadataStep (parsed, true) =
      ({ parsed with album := pushAll parsed.album ps }, true) := by
  induction ps generalizing parsed with
  | nil => rfl
  | cons p ps ih =>
    rw [List.map_cons, List.foldl_cons]
    have hstep : metadataStep (parsed, true) (formatRecord ['A'] p.1 p.2) =
        ({ parsed with album := userMetadataPush parsed.album p.1 p.2 }, true) := by
      rw [metadataStep, parseMetadataLine_album (hkeys p List.mem_cons_self)]
      rfl
    rw [hstep, ih fun q hq => hkeys q (List.mem_cons_of_mem _ hq)]
    rfl

def pushTrack (tracks : Map ℕ CueUserMetadata) (ordinal : ℕ) (ps : List (Str × Str)) : Map ℕ CueUserMetadata :=
  ps.foldl (fun tracks p => tracks.upsert ordinal fun metadata => userMetadataPush (metadata.getD .empty) p.1 p.2) tracks

/-- The records of one track inside the block. -/
theorem foldl_track {index : ℕ} (hindex : index + 1 ≤ usizeMax) (hkeys : ∀ p ∈ ps, (trim p.1).isEmpty = false)
    (parsed : ParsedTonepoetMetadata) :
    (ps.map fun p => formatRecord ('T' :: ' ' :: formatNat (index + 1)) p.1 p.2).foldl metadataStep (parsed, true) =
      ({ parsed with tracks := pushTrack parsed.tracks (index + 1) ps }, true) := by
  induction ps generalizing parsed with
  | nil => rfl
  | cons p ps ih =>
    rw [List.map_cons, List.foldl_cons]
    have hstep : metadataStep (parsed, true) (formatRecord ('T' :: ' ' :: formatNat (index + 1)) p.1 p.2) =
        ({ parsed with
            tracks := parsed.tracks.upsert (index + 1) fun metadata => userMetadataPush (metadata.getD .empty) p.1 p.2 }, true) := by
      rw [metadataStep, parseMetadataLine_track hindex (hkeys p List.mem_cons_self)]
      rfl
    rw [hstep, ih fun q hq => hkeys q (List.mem_cons_of_mem _ hq)]
    rfl

theorem pushTrack_last {ordinal : ℕ} {init : List (ℕ × CueUserMetadata)} : ∀ {ps : List (Str × Str)} {tracks : Map ℕ CueUserMetadata}
    {m : CueUserMetadata}, tracks.entries = init ++ [(ordinal, m)] →
      (pushTrack tracks ordinal ps).entries = init ++ [(ordinal, pushAll m ps)]
  | [], _, _, h => h
  | p :: ps, tracks, m, h => by
    rw [pushTrack, List.foldl_cons, ← pushTrack, pushTrack_last (Map.entries_upsert_last _ h)]
    rfl

theorem pushTrack_above {tracks : Map ℕ CueUserMetadata} {ordinal : ℕ} (habove : ∀ e ∈ tracks.entries, e.1 < ordinal) (hps : ps ≠ []) :
    (pushTrack tracks ordinal ps).entries = tracks.entries ++ [(ordinal, pushAll .empty ps)] := by
  obtain ⟨p, ps, rfl⟩ := List.exists_cons_of_ne_nil hps
  rw [pushTrack, List.foldl_cons, ← pushTrack, pushTrack_last (Map.entries_upsert_above _ habove)]
  rfl

/-- The tracks that have metadata, by their 1-based ordinals. -/
def recordedTracks (tracks : List CueUserMetadata) (start : ℕ) : List (ℕ × CueUserMetadata) :=
  (tracks.zipIdx start).flatMap fun (metadata, index) => if metadata.entries.isEmpty then [] else [(index + 1, metadata)]

/-- The records of all tracks. -/
theorem foldl_tracks : ∀ {tracks : List CueUserMetadata} {start : ℕ} {parsed : ParsedTonepoetMetadata},
    (∀ metadata ∈ tracks, Recordable metadata) → start + tracks.length ≤ usizeMax → (∀ e ∈ parsed.tracks.entries, e.1 ≤ start) →
    ∃ ts : Map ℕ CueUserMetadata, ts.entries = parsed.tracks.entries ++ recordedTracks tracks start ∧
      ((tracks.zipIdx start).flatMap fun (metadata, index) => formatScope ('T' :: ' ' :: formatNat (index + 1)) metadata).foldl
        metadataStep (parsed, true) = ({ parsed with tracks := ts }, true)
  | [], _, parsed, _, _, _ => ⟨parsed.tracks, (List.append_nil _).symm, rfl⟩
  | metadata :: tracks, start, parsed, hrecordable, hlen, hbelow => by
    have hmetadata := hrecordable metadata List.mem_cons_self
    have hrest := fun m hm => hrecordable m (List.mem_cons_of_mem _ hm)
    rw [List.length_cons] at hlen
    rw [List.zipIdx_cons, List.flatMap_cons, List.foldl_append]
    dsimp only
    rw [formatScope_eq hmetadata.key, foldl_track (by omega) fun p hp => key_of_mem_records hmetadata.key hp]
    rw [recordedTracks, List.zipIdx_cons, List.flatMap_cons, ← recordedTracks]
    dsimp only
    by_cases hempty : metadata.entries = []
    · rw [hempty]
      exact foldl_tracks hrest (by omega) fun e he => (hbelow e he).trans (Nat.le_succ _)
    · have hrecords : records metadata.entries ≠ [] := by
        obtain ⟨e, entries, hentries⟩ := List.exists_cons_of_ne_nil hempty
        have hvalues := hmetadata.values e (hentries ▸ List.mem_cons_self)
        rw [hentries, records, List.flatMap_cons]
        simp [hvalues]
      have htracks := pushTrack_above (fun e he => Nat.lt_succ_of_le (hbelow e he)) hrecords
      rw [hmetadata.pushAll_eq] at htracks
      obtain ⟨ts, hts, hfold⟩ := @foldl_tracks tracks (start + 1)
        { parsed with tracks := pushTrack parsed.tracks (start + 1) (records metadata.entries) } hrest (by omega) (by
          intro e he
          rw [htracks] at he
          rcases List.mem_append.1 he with he | he
          · exact (hbelow e he).trans (Nat.le_succ _)
          · rw [List.mem_singleton.1 he])
      refine ⟨ts, ?_, hfold⟩
      rw [hts, htracks, if_neg (by simpa using hempty), List.append_assoc]

/-- **The metadata block loses nothing.** -/
theorem parseTonepoetMetadata_format {album : CueUserMetadata} {tracks : List CueUserMetadata} (halbum : Recordable album)
    (htracks : ∀ metadata ∈ tracks, Recordable metadata) (hlen : tracks.length ≤ usizeMax) (ending : LineEnding) :
    (parseTonepoetMetadata (ending.text.intercalate (formatTonepoetMetadataBlock album tracks))).present = true ∧
      (parseTonepoetMetadata (ending.text.intercalate (formatTonepoetMetadataBlock album tracks))).album = album ∧
      (parseTonepoetMetadata (ending.text.intercalate (formatTonepoetMetadataBlock album tracks))).tracks.entries =
        recordedTracks tracks 0 := by
  have hbegin : metadataStep (⟨false, .empty, .empty⟩, false) (recordStart ++ beginKeyword) = (⟨true, .empty, .empty⟩, true) := by
    rw [metadataStep, parseMetadataLine_begin]
  obtain ⟨ts, hts, hfold⟩ := @foldl_tracks tracks 0 ⟨true, album, .empty⟩ htracks (by omega) (fun e he => by cases he)
  have hend : metadataStep (⟨true, album, ts⟩, true) (recordStart ++ endKeyword) = (⟨true, album, ts⟩, false) := by
    rw [metadataStep, parseMetadataLine_end]
  have hparsed : parseTonepoetMetadata (ending.text.intercalate (formatTonepoetMetadataBlock album tracks)) = ⟨true, album, ts⟩ := by
    rw [parseTonepoetMetadata, lines_formatTonepoetMetadataBlock, formatTonepoetMetadataBlock]
    simp only [List.foldl_append, List.foldl_cons, List.foldl_nil]
    rw [hbegin, formatScope_eq halbum.key, foldl_album fun p hp => key_of_mem_records halbum.key hp]
    dsimp only at hfold ⊢
    rw [halbum.pushAll_eq, hfold, hend]
  rw [hparsed]
  exact ⟨rfl, rfl, hts⟩

/-- An album key with a blank in it, an empty value and one of quotes and a line break; no metadata on the first track. -/
theorem parseTonepoetMetadata_format_two : ∃ (album : CueUserMetadata) (parsed : ParsedTonepoetMetadata),
    parsed = parseTonepoetMetadata (LineEnding.crLf.text.intercalate (formatTonepoetMetadataBlock album [.empty, album])) ∧
      parsed.album = album ∧ parsed.tracks.entries = [(2, album)] := by
  let album : CueUserMetadata := ⟨[(['a', ' '], [[], ['"', '\n', ' ']])], List.pairwise_singleton _ _⟩
  have halbum : Recordable album := ⟨by decide, by decide, List.pairwise_singleton _ _⟩
  have htracks : ∀ metadata ∈ [.empty, album], Recordable metadata := by
    intro metadata hmetadata
    rcases List.mem_cons.1 hmetadata with rfl | hmetadata
    · exact ⟨nofun, nofun, List.Pairwise.nil⟩
    · rw [List.mem_singleton.1 hmetadata]
      exact halbum
  exact ⟨album, _, rfl, (parseTonepoetMetadata_format halbum htracks (by decide) .crLf).2⟩

end Cue
