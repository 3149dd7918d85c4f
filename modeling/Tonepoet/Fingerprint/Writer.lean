import Tonepoet.Library.SelfDelimiting
import Tonepoet.Text

/-!
# The fingerprint writer

A fingerprint is the SHA-256 of a text of fields, `path=length:value` and a line feed each. A path has no
`=` in it and a value says its length in bytes, so the bytes fed to the hasher give the fields back: values
may hold any delimiter. The formats below are the ones that values are written in.
-/

namespace Fingerprint

open Rust

/-! ## Text as bytes -/

def utf8 (s : Str) : List UInt8 := s.flatMap String.utf8EncodeChar

theorem utf8_append (a b : Str) : utf8 (a ++ b) = utf8 a ++ utf8 b := List.flatMap_append

theorem utf8_injective : Function.Injective utf8 := by
  intro a b h
  have hbytes : a.utf8Encode = b.utf8Encode := congrArg List.toByteArray h
  rw [← String.toByteArray_ofList, ← String.toByteArray_ofList, String.toByteArray_inj] at hbytes
  exact String.ofList_injective hbytes

/-- A byte below `0x80` is a character of its own. -/
theorem toNat_of_mem_utf8EncodeChar {c : Char} {byte : UInt8} (hbyte : byte < 128)
    (h : byte ∈ String.utf8EncodeChar c) : c.toNat = byte.toNat := by
  have hsmall : byte.toNat < 128 := by simpa [UInt8.lt_iff_toNat_lt] using hbyte
  have hsize : ∀ m, (UInt8.ofNat m).toNat = m % 256 := fun m => by simp
  rw [String.utf8EncodeChar] at h
  change _ ∈ (if c.toNat ≤ 0x7f then _ else _) at h
  split_ifs at h <;>
    simp only [List.mem_cons, List.not_mem_nil, or_false, ← UInt8.toNat_inj, hsize, Char.toNat_val] at h <;>
    omega

theorem notMem_utf8 {s : Str} {c : Char} {byte : UInt8} (hbyte : byte < 128) (hc : c.toNat = byte.toNat) (h : c ∉ s) :
    byte ∉ utf8 s := by
  intro hmem
  obtain ⟨d, hd, hbytes⟩ := List.mem_flatMap.1 hmem
  have hcd : c = d := Char.toNat_inj.1 (hc.trans (toNat_of_mem_utf8EncodeChar hbyte hbytes).symm)
  exact h (hcd ▸ hd)

/-- A text is known from its bytes' number and what it begins. -/
theorem split_at_byte_length {a b r s : Str} (hlen : (utf8 a).length = (utf8 b).length) (h : a ++ r = b ++ s) :
    a = b ∧ r = s := by
  have hbytes : utf8 a ++ utf8 r = utf8 b ++ utf8 s := by rw [← utf8_append, ← utf8_append, h]
  obtain ⟨hab, hrs⟩ := List.append_inj hbytes hlen
  exact ⟨utf8_injective hab, utf8_injective hrs⟩

/-! ## Numbers -/

theorem formatNat_injective : Function.Injective formatNat := by
  intro n m h
  rw [← Nat.ofDigitChars_ten_toDigits (n := n), ← Nat.ofDigitChars_ten_toDigits (n := m)]
  exact congrArg (Nat.ofDigitChars 10 · 0) h

@[simp] theorem formatNat_inj {n m : ℕ} : formatNat n = formatNat m ↔ n = m := formatNat_injective.eq_iff

theorem notMem_formatNat {c : Char} (hc : c.isDigit = false) (n : ℕ) : c ∉ formatNat n := by
  intro h
  rw [Nat.isDigit_of_mem_toDigits (by decide) (by decide) h] at hc
  cases hc

theorem ofDigitChars_leftpad (width n : ℕ) : Nat.ofDigitChars 10 ((formatNat n).leftpad width '0') 0 = n := by
  rw [List.leftpad, Nat.ofDigitChars_append, Nat.ofDigitChars_replicate_zero, Nat.mul_zero]
  exact Nat.ofDigitChars_ten_toDigits

/-- `{:x}` of a number. -/
def formatHex (n : ℕ) : Str := Nat.toDigits 16 n

theorem fromHex_append (a b : Str) : fromHex (a ++ b) = b.foldl (fun n d => n * 16 + hexDigitValue d) (fromHex a) := by
  rw [fromHex, fromHex, List.foldl_append]

theorem fromHex_zeros (width : ℕ) : fromHex (List.replicate width '0') = 0 := by
  induction width with
  | zero => rfl
  | succ width ih =>
    rw [List.replicate_succ', fromHex_append, ih]
    rfl

theorem hexDigitValue_digitChar : ∀ d < 16, hexDigitValue (Nat.digitChar d) = d := by decide

theorem foldl_formatHex (n : ℕ) : (formatHex n).foldl (fun n d => n * 16 + hexDigitValue d) 0 = n := by
  induction n using Nat.base_induction 16 (by decide) with
  | single m hm =>
    rw [formatHex, Nat.toDigits_of_lt_base hm, List.foldl_cons, List.foldl_nil, hexDigitValue_digitChar m hm]
    omega
  | digit m k hk hm ih =>
    rw [formatHex, ← Nat.toDigits_append_toDigits (by decide) hm hk, List.foldl_append]
    rw [formatHex] at ih
    rw [ih, Nat.toDigits_of_lt_base hk, List.foldl_cons, List.foldl_nil, hexDigitValue_digitChar k hk, Nat.mul_comm]

theorem fromHex_leftpad (width n : ℕ) : fromHex ((formatHex n).leftpad width '0') = n := by
  rw [List.leftpad, fromHex_append, fromHex_zeros, foldl_formatHex]

/-! ## Fields -/

structure Field where
  path : Str
  value : Str
  separatorFree : '=' ∉ path

theorem Field.eq_of_value {f g : Field} (hpath : f.path = g.path) (hvalue : f.value = g.value) : f = g := by
  cases f
  cases g
  cases hpath
  cases hvalue
  rfl

/-- `FingerprintWriter::field_static` and `field_string`: what one field feeds the hasher. -/
def Field.bytes (f : Field) : List UInt8 :=
  utf8 f.path ++ utf8 ['='] ++ utf8 (formatNat (utf8 f.value).length) ++ utf8 [':'] ++ utf8 f.value ++ utf8 ['\n']

/-- What the fields pushed on a fresh writer feed the hasher. -/
def fed (fields : List Field) : List UInt8 := fields.flatMap Field.bytes

theorem Field.bytes_selfDelimiting : SelfDelimiting Field.bytes := by
  intro f g r s h
  simp only [Field.bytes, List.append_assoc] at h
  have hpath : ∀ f : Field, (61 : UInt8) ∉ utf8 f.path := fun f => notMem_utf8 (by decide) rfl f.separatorFree
  have hdigits : ∀ n, (58 : UInt8) ∉ utf8 (formatNat n) := fun n =>
    notMem_utf8 (c := ':') (by decide) rfl (notMem_formatNat (by decide) n)
  obtain ⟨hpaths, h⟩ := SelfDelimiting.split_at_letter (hpath f) (hpath g) h
  obtain ⟨hlengths, h⟩ := SelfDelimiting.split_at_letter (hdigits _) (hdigits _) h
  have hlen : (utf8 f.value).length = (utf8 g.value).length := formatNat_injective (utf8_injective hlengths)
  obtain ⟨hvalues, h⟩ := List.append_inj (show utf8 f.value ++ (utf8 ['\n'] ++ r) = utf8 g.value ++ (utf8 ['\n'] ++ s) from h) hlen
  exact ⟨Field.eq_of_value (utf8_injective hpaths) (utf8_injective hvalues), List.append_cancel_left h⟩

theorem Field.bytes_ne_nil (f : Field) : f.bytes ≠ [] := by
  intro h
  exact absurd (List.append_eq_nil_iff.1 h).2 (by decide)

/-- **The hasher sees the fields**: different lists of fields never feed it the same bytes. -/
theorem fed_injective : Function.Injective fed := Field.bytes_selfDelimiting.flatMap Field.bytes_ne_nil

/-- A field whose path is written out where it is pushed. -/
def field (path value : Str) (separatorFree : '=' ∉ path := by decide) : Field := ⟨path, value, separatorFree⟩

@[simp] theorem field_inj {path v w : Str} {h h' : '=' ∉ path} : field path v h = field path w h' ↔ v = w := by
  simp [field]

/-- The beginning of a composed path. -/
structure PathPrefix where
  text : Str
  separatorFree : '=' ∉ text

/-- `format!("{prefix}.suffix")` and the value pushed there. -/
def PathPrefix.field (base : PathPrefix) (suffix value : Str) (separatorFree : '=' ∉ suffix := by decide) : Field where
  path := base.text ++ suffix
  value := value
  separatorFree := by simp [base.separatorFree, separatorFree]

@[simp] theorem PathPrefix.field_inj {base : PathPrefix} {suffix v w : Str} {h h' : '=' ∉ suffix} :
    base.field suffix v h = base.field suffix w h' ↔ v = w := by
  simp [PathPrefix.field]

/-! ## Values -/

def boolValue (value : Bool) : Str := if value then "true".toList else "false".toList

theorem boolValue_injective : Function.Injective boolValue := by
  rintro (_ | _) (_ | _) h
  · rfl
  · exact absurd h (by decide)
  · exact absurd h (by decide)
  · rfl

@[simp] theorem boolValue_inj {a b : Bool} : boolValue a = boolValue b ↔ a = b := boolValue_injective.eq_iff

/-- `string_value`: a text behind its length in bytes. -/
def stringValue (value : Str) : Str := formatNat (utf8 value).length ++ ':' :: value

theorem stringValue_selfDelimiting : SelfDelimiting stringValue := by
  intro a b r s h
  simp only [stringValue, List.append_assoc, List.cons_append] at h
  obtain ⟨hlengths, h⟩ := SelfDelimiting.split_at_letter (notMem_formatNat (by decide) _) (notMem_formatNat (by decide) _) h
  exact split_at_byte_length (formatNat_injective hlengths) h

/-- The shape of `option_static`, `option_u16`, `option_f32` and `option_db_nano`. -/
def optionValue {α : Type} (format : α → Str) : Option α → Str
  | some value => "Some(".toList ++ format value ++ [')']
  | none => "None".toList

theorem optionValue_injective {α : Type} {format : α → Str} (h : Function.Injective format) :
    Function.Injective (optionValue format) := by
  rintro (_ | a) (_ | b) heq
  · rfl
  · cases heq
  · cases heq
  · rw [optionValue, optionValue, List.append_assoc, List.append_assoc] at heq
    rw [h (List.append_cancel_right (List.append_cancel_left heq))]

@[simp] theorem optionValue_inj {α : Type} {format : α → Str} {a b : Option α} (h : Function.Injective format) :
    optionValue format a = optionValue format b ↔ a = b := (optionValue_injective h).eq_iff

/-- The shape of `option_u8` and of the optional numbers of `push_sox_resampler`: no mark on a value that is there. -/
def optionNumber : Option ℕ → Str
  | some value => formatNat value
  | none => "None".toList

theorem optionNumber_injective : Function.Injective optionNumber := by
  have hnone : ∀ n, formatNat n ≠ "None".toList := fun n h => notMem_formatNat (c := 'N') rfl n (by rw [h]; decide)
  rintro (_ | a) (_ | b) heq
  · rfl
  · exact absurd heq.symm (hnone b)
  · exact absurd heq (hnone a)
  · rw [formatNat_injective heq]

@[simp] theorem optionNumber_inj {a b : Option ℕ} : optionNumber a = optionNumber b ↔ a = b := optionNumber_injective.eq_iff

/-- An `f32` by its bits. -/
structure F32 where
  toBits : UInt32
  deriving DecidableEq

def f32Value (value : F32) : Str := "f32bits:".toList ++ (formatHex value.toBits.toNat).leftpad 8 '0'

theorem f32Value_injective : Function.Injective f32Value := by
  rintro ⟨a⟩ ⟨b⟩ h
  have hdigits := congrArg fromHex (List.append_cancel_left h)
  rw [fromHex_leftpad, fromHex_leftpad] at hdigits
  exact congrArg F32.mk (UInt32.toNat_inj.1 hdigits)

@[simp] theorem f32Value_inj {a b : F32} : f32Value a = f32Value b ↔ a = b := f32Value_injective.eq_iff

/-- Decibels in units of 10⁻⁹. -/
structure DbNano where
  nano : Int64
  deriving DecidableEq

def DbNano.render (value : DbNano) (mandatorySign : Bool) : Str :=
  let negative := value.nano.toInt < 0
  let magnitude := value.nano.toInt.natAbs
  let whole := magnitude / 1000000000
  let fractional := magnitude % 1000000000
  let sign := if negative then ['-'] else if mandatorySign then ['+'] else []
  sign ++ formatNat whole ++ '.' :: (formatNat fractional).leftpad 9 '0'

/-- The digits of a magnitude, before the sign. -/
def renderMagnitude (magnitude : ℕ) : Str :=
  formatNat (magnitude / 1000000000) ++ '.' :: (formatNat (magnitude % 1000000000)).leftpad 9 '0'

theorem renderMagnitude_injective : Function.Injective renderMagnitude := by
  intro m n h
  obtain ⟨hwhole, hpadded⟩ :=
    SelfDelimiting.split_at_letter (notMem_formatNat (by decide) _) (notMem_formatNat (by decide) _) h
  have hfractional := congrArg (Nat.ofDigitChars 10 · 0) hpadded
  simp only [ofDigitChars_leftpad] at hfractional
  have hwholes := formatNat_injective hwhole
  omega

theorem renderMagnitude_ne_minus (m : ℕ) (s : Str) : renderMagnitude m ≠ '-' :: s := by
  intro h
  obtain ⟨d, ds, hdigits⟩ := List.exists_cons_of_ne_nil (Nat.toDigits_ne_nil (n := m / 1000000000) (b := 10))
  have hminus : d = '-' := by
    rw [renderMagnitude, formatNat, hdigits] at h
    exact (List.cons.inj h).1
  exact notMem_formatNat (c := '-') (by decide) (m / 1000000000) (by rw [formatNat, hdigits, hminus]; exact List.mem_cons_self)

theorem DbNano.render_eq (value : DbNano) :
    value.render false = if value.nano.toInt < 0 then '-' :: renderMagnitude value.nano.toInt.natAbs
      else renderMagnitude value.nano.toInt.natAbs := by
  rw [DbNano.render, if_neg Bool.false_ne_true]
  split_ifs with hnegative
  · rfl
  · rfl

theorem DbNano.render_injective : Function.Injective fun value : DbNano => value.render false := by
  rintro ⟨a⟩ ⟨b⟩ h
  simp only [DbNano.render_eq] at h
  have heq : a.toInt = b.toInt := by
    split_ifs at h with ha hb hb
    · have hmagnitude := renderMagnitude_injective (List.cons.inj h).2
      omega
    · exact absurd h.symm (renderMagnitude_ne_minus _ _)
    · exact absurd h (renderMagnitude_ne_minus _ _)
    · have hmagnitude := renderMagnitude_injective h
      omega
  rw [Int64.toInt_inj.1 heq]

@[simp] theorem DbNano.render_inj {a b : DbNano} : a.render false = b.render false ↔ a = b := DbNano.render_injective.eq_iff

end Fingerprint
