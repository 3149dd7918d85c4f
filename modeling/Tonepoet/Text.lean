import Mathlib.Algebra.Order.Group.Nat
import Mathlib.Data.List.DropRight
import Tonepoet.Rust

/-!
# Rust strings

A `str` is the list of its characters: every slice the models take is at a character boundary. Whitespace
is Unicode's `White_Space`, a control character is one of general category `Cc`.
-/

namespace Rust

abbrev Str := List Char

/-- What holds of every character of a string is checked on the string, not on all characters. -/
instance (priority := high) decidableForallChar (p : Char → Prop) [DecidablePred p] (s : Str) : Decidable (∀ c ∈ s, p c) :=
  List.decidableBAll p s

/-- `char::is_whitespace`. -/
def isWhitespace (c : Char) : Bool :=
  let n := c.toNat
  (0x09 ≤ n && n ≤ 0x0D) || n == 0x20 || n == 0x85 || n == 0xA0 || n == 0x1680 || (0x2000 ≤ n && n ≤ 0x200A) ||
    n == 0x2028 || n == 0x2029 || n == 0x202F || n == 0x205F || n == 0x3000

/-- `char::is_control`. -/
def isControl (c : Char) : Bool :=
  let n := c.toNat
  n ≤ 0x1F || (0x7F ≤ n && n ≤ 0x9F)

/-- `char::is_ascii_hexdigit`. -/
def isAsciiHexdigit (c : Char) : Bool := ('0' ≤ c && c ≤ '9') || ('a' ≤ c && c ≤ 'f') || ('A' ≤ c && c ≤ 'F')

def trimStart (s : Str) : Str := s.dropWhile isWhitespace
def trimEnd (s : Str) : Str := s.rdropWhile isWhitespace
def trim (s : Str) : Str := trimEnd (trimStart s)

/-- `str::eq_ignore_ascii_case`. -/
def eqIgnoreAsciiCase (a b : Str) : Bool := a.map Char.toLower == b.map Char.toLower

/-- `str::parse::<usize>`: digits, with or without a plus sign. -/
def parseUsize (s : Str) : Option ℕ :=
  let digits := if s.head? = some '+' then s.tail else s
  if digits.isEmpty || !digits.all Char.isDigit then none
  else
    let n := Nat.ofDigitChars 10 digits 0
    if n ≤ usizeMax then some n else none

/-- `{}` of a number. -/
def formatNat (n : ℕ) : Str := Nat.toDigits 10 n

def hexDigitValue (c : Char) : ℕ :=
  if '0' ≤ c && c ≤ '9' then c.toNat - '0'.toNat
  else if 'a' ≤ c && c ≤ 'f' then c.toNat - 'a'.toNat + 10
  else c.toNat - 'A'.toNat + 10

/-- `u32::from_str_radix(hex, 16)` of hexadecimal digits that do not overflow. -/
def fromHex (digits : Str) : ℕ := digits.foldl (fun n d => n * 16 + hexDigitValue d) 0

/-- `{:X}` of a number. -/
def formatUpperHex (n : ℕ) : Str := (Nat.toDigits 16 n).map Char.toUpper

/-- `char::from_u32`. -/
def charFromU32 (n : ℕ) : Option Char := if n.isValidChar then some (Char.ofNat n) else none

/-- `str::split_inclusive('\n')`. -/
def splitInclusive : Str → List Str
  | [] => []
  | c :: cs =>
    if c = '\n' then [c] :: splitInclusive cs
    else
      match splitInclusive cs with
      | [] => [[c]]
      | line :: lines => (c :: line) :: lines

/-- A line without the ending it may have. -/
def stripLineEnding (line : Str) : Str :=
  if line.getLast? = some '\n' then
    let line := line.dropLast
    if line.getLast? = some '\r' then line.dropLast else line
  else line

/-- `str::lines`. -/
def lines (s : Str) : List Str := (splitInclusive s).map stripLineEnding

/-! ## Trimming -/

theorem trimStart_cons {c : Char} (h : isWhitespace c = false) (s : Str) : trimStart (c :: s) = c :: s := by
  rw [trimStart, List.dropWhile_cons_of_neg (by rw [h]; exact Bool.false_ne_true)]

theorem trimStart_space (s : Str) : trimStart (' ' :: s) = trimStart s := List.dropWhile_cons_of_pos rfl

theorem trimEnd_cons {c : Char} (h : isWhitespace c = false) (s : Str) : trimEnd (c :: s) = c :: trimEnd s := by
  induction s using List.reverseRecOn with
  | nil => exact List.rdropWhile_concat_neg _ [] c (by rw [h]; exact Bool.false_ne_true)
  | append_singleton s d ih =>
    by_cases hd : isWhitespace d = true
    · rw [trimEnd, trimEnd, ← List.cons_append, List.rdropWhile_concat_pos _ _ _ hd, List.rdropWhile_concat_pos _ _ _ hd]
      exact ih
    · rw [trimEnd, trimEnd, ← List.cons_append, List.rdropWhile_concat_neg _ _ _ hd, List.rdropWhile_concat_neg _ _ _ hd,
        List.cons_append]

theorem trim_cons {c : Char} (h : isWhitespace c = false) (s : Str) : trim (c :: s) = c :: trimEnd s := by
  rw [trim, trimStart_cons h, trimEnd_cons h]

/-! ## Lines -/

theorem eq_false_of_any {s : Str} {p : Char → Bool} (h : s.any p = false) : ∀ c ∈ s, p c = false :=
  fun c hc => Bool.eq_false_iff.2 (List.any_eq_false.1 h c hc)

theorem splitInclusive_append {line : Str} (h : '\n' ∉ line) (rest : Str) :
    splitInclusive (line ++ '\n' :: rest) = (line ++ ['\n']) :: splitInclusive rest := by
  induction line with
  | nil => rw [List.nil_append, splitInclusive, if_pos rfl, List.nil_append]
  | cons c line ih =>
    rw [List.mem_cons, not_or] at h
    rw [List.cons_append, splitInclusive, if_neg (Ne.symm h.1), ih h.2, List.cons_append]

theorem splitInclusive_of_not_mem {line : Str} (h : '\n' ∉ line) (hne : line ≠ []) : splitInclusive line = [line] := by
  induction line with
  | nil => exact absurd rfl hne
  | cons c line ih =>
    rw [List.mem_cons, not_or] at h
    rw [splitInclusive, if_neg (Ne.symm h.1)]
    by_cases hline : line = []
    · rw [hline]
      rfl
    · rw [ih h.2 hline]

/-- `\n` and `\r\n`. -/
inductive LineEnding where
  | lf
  | crLf
  deriving DecidableEq, Repr

def LineEnding.text : LineEnding → Str
  | .lf => ['\n']
  | .crLf => ['\r', '\n']

theorem lines_append_ending {line : Str} (hlf : '\n' ∉ line) (hcr : '\r' ∉ line) (ending : LineEnding) (rest : Str) :
    lines (line ++ ending.text ++ rest) = line :: lines rest := by
  have hlast : line.getLast? ≠ some '\r' := fun h => hcr (List.mem_of_getLast? h)
  cases ending with
  | lf =>
    rw [LineEnding.text, List.append_assoc, List.singleton_append, lines, splitInclusive_append hlf, List.map_cons, ← lines,
      stripLineEnding, List.getLast?_concat, if_pos rfl, List.dropLast_concat]
    dsimp only
    rw [if_neg hlast]
  | crLf =>
    have hline : '\n' ∉ line ++ ['\r'] := by simp [hlf]
    rw [LineEnding.text, show line ++ ['\r', '\n'] ++ rest = (line ++ ['\r']) ++ '\n' :: rest by simp, lines,
      splitInclusive_append hline, List.map_cons, ← lines, stripLineEnding, List.getLast?_concat, if_pos rfl,
      List.dropLast_concat]
    dsimp only
    rw [List.getLast?_concat, if_pos rfl, List.dropLast_concat]

/-- Joined lines are read back. -/
theorem lines_intercalate (ending : LineEnding) : ∀ {ls : List Str}, (∀ l ∈ ls, '\n' ∉ l ∧ '\r' ∉ l ∧ l ≠ []) →
    lines (ending.text.intercalate ls) = ls
  | [], _ => rfl
  | [line], h => by
    obtain ⟨hlf, -, hne⟩ := h line List.mem_cons_self
    have hlast : line.getLast? ≠ some '\n' := fun h => hlf (List.mem_of_getLast? h)
    rw [List.intercalate_singleton, lines, splitInclusive_of_not_mem hlf hne, List.map_singleton, stripLineEnding, if_neg hlast]
  | line :: line' :: ls, h => by
    obtain ⟨hlf, hcr, -⟩ := h line List.mem_cons_self
    rw [List.intercalate_cons_cons, lines_append_ending hlf hcr,
      lines_intercalate ending fun l hl => h l (List.mem_cons_of_mem _ hl)]

/-! ## Numbers -/

theorem toNat_of_isDigit {c : Char} (h : c.isDigit = true) : 48 ≤ c.toNat ∧ c.toNat ≤ 57 := by
  rw [Char.isDigit, Bool.and_eq_true, decide_eq_true_eq, decide_eq_true_eq] at h
  exact ⟨UInt32.le_iff_toNat_le.1 h.1, UInt32.le_iff_toNat_le.1 h.2⟩

theorem isDigit_of_mem_formatNat {n : ℕ} {c : Char} (h : c ∈ formatNat n) : c.isDigit = true :=
  Nat.isDigit_of_mem_toDigits (by decide) (by decide) h

theorem isWhitespace_of_isDigit {c : Char} (h : c.isDigit = true) : isWhitespace c = false := by
  obtain ⟨hlo, hhi⟩ := toNat_of_isDigit h
  simp only [isWhitespace, Bool.or_eq_false_iff, Bool.and_eq_false_iff, decide_eq_false_iff_not, beq_eq_false_iff_ne]
  omega

theorem isControl_of_isDigit {c : Char} (h : c.isDigit = true) : isControl c = false := by
  obtain ⟨hlo, hhi⟩ := toNat_of_isDigit h
  simp only [isControl, Bool.or_eq_false_iff, Bool.and_eq_false_iff, decide_eq_false_iff_not]
  omega

theorem parseUsize_formatNat {n : ℕ} (h : n ≤ usizeMax) : parseUsize (formatNat n) = some n := by
  have hdigits : ∀ c ∈ formatNat n, c.isDigit = true := fun c hc => isDigit_of_mem_formatNat hc
  have hsign : (formatNat n).head? ≠ some '+' := fun hhead => by
    have hplus := hdigits '+' (List.mem_of_head? hhead)
    cases hplus
  have hne : (formatNat n).isEmpty = false := by
    rw [List.isEmpty_eq_false_iff]
    exact Nat.toDigits_ne_nil
  rw [parseUsize]
  dsimp only
  rw [if_neg hsign, hne, List.all_eq_true.2 hdigits, if_neg (by decide), formatNat, Nat.ofDigitChars_ten_toDigits, if_pos h]

end Rust
