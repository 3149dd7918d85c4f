import Mathlib.Data.List.Basic
import Mathlib.Algebra.Order.Ring.Nat
import Mathlib.Tactic.Ring

/-!
# Files of bytes

Numbers of a fixed width in either byte order, and what a file holds at an offset: a reader's results are
proved from `Holds`, and a writer's from what appending and patching do to it.
-/

namespace ByteFile

/-! ## Numbers -/

/-- The low `width` bytes of `n`, the least significant first. -/
def leBytes : ℕ → ℕ → List UInt8
  | 0, _ => []
  | width + 1, n => UInt8.ofNat n :: leBytes width (n / 256)

def ofLe : List UInt8 → ℕ
  | [] => 0
  | b :: bs => b.toNat + 256 * ofLe bs

def beBytes (width n : ℕ) : List UInt8 := (leBytes width n).reverse
def ofBe (bytes : List UInt8) : ℕ := ofLe bytes.reverse

@[simp] theorem length_leBytes (width n : ℕ) : (leBytes width n).length = width := by
  induction width generalizing n with
  | zero => rfl
  | succ width ih => rw [leBytes, List.length_cons, ih]

@[simp] theorem length_beBytes (width n : ℕ) : (beBytes width n).length = width := by rw [beBytes, List.length_reverse, length_leBytes]

theorem ofLe_leBytes {width n : ℕ} (h : n < 256 ^ width) : ofLe (leBytes width n) = n := by
  induction width generalizing n with
  | zero =>
    rw [pow_zero, Nat.lt_one_iff] at h
    rw [h]
    rfl
  | succ width ih =>
    have hdiv : n / 256 < 256 ^ width := Nat.div_lt_of_lt_mul (by rwa [← pow_succ'])
    rw [leBytes, ofLe, ih hdiv, UInt8.toNat_ofNat', show (2 : ℕ) ^ 8 = 256 from rfl, Nat.mod_add_div]

theorem ofBe_beBytes {width n : ℕ} (h : n < 256 ^ width) : ofBe (beBytes width n) = n := by
  rw [ofBe, beBytes, List.reverse_reverse, ofLe_leBytes h]

/-! ## Reading -/

/-- The `n` bytes at the offset, when the file is long enough. -/
def readAt (file : List UInt8) (offset n : ℕ) : Option (List UInt8) :=
  if offset + n ≤ file.length then some ((file.drop offset).take n) else none

/-- The file holds the bytes at the offset. -/
def Holds (file : List UInt8) (offset : ℕ) (bytes : List UInt8) : Prop :=
  ∃ front rest, file = front ++ (bytes ++ rest) ∧ front.length = offset

variable {file bytes a b : List UInt8} {offset : ℕ}

theorem Holds.le_length (h : Holds file offset bytes) : offset + bytes.length ≤ file.length := by
  obtain ⟨front, rest, rfl, rfl⟩ := h
  rw [List.length_append, List.length_append]
  omega

theorem Holds.readAt (h : Holds file offset bytes) : readAt file offset bytes.length = some bytes := by
  have hle := h.le_length
  obtain ⟨front, rest, rfl, rfl⟩ := h
  rw [ByteFile.readAt, if_pos hle, List.drop_left, List.take_left]

theorem Holds.left (h : Holds file offset (a ++ b)) : Holds file offset a := by
  obtain ⟨front, rest, rfl, rfl⟩ := h
  exact ⟨front, b ++ rest, by rw [List.append_assoc], rfl⟩

theorem Holds.right (h : Holds file offset (a ++ b)) : Holds file (offset + a.length) b := by
  obtain ⟨front, rest, rfl, rfl⟩ := h
  refine ⟨front ++ a, rest, ?_, List.length_append⟩
  simp only [List.append_assoc]

/-! ## Writing -/

/-- The bytes written at the offset, over what is there and beyond the end. -/
def writeAt (file : List UInt8) (offset : ℕ) (bytes : List UInt8) : List UInt8 :=
  file.take offset ++ bytes ++ file.drop (offset + bytes.length)

@[simp] theorem writeAt_length (file bytes : List UInt8) : writeAt file file.length bytes = file ++ bytes := by
  rw [writeAt, List.take_length, List.drop_eq_nil_of_le (Nat.le_add_right _ _), List.append_nil]

/-- A patch of the same length. -/
theorem writeAt_patch {front old new rest : List UInt8} (h : old.length = new.length) :
    writeAt (front ++ (old ++ rest)) front.length new = front ++ (new ++ rest) := by
  rw [writeAt, List.take_left, ← h, ← List.length_append, ← List.append_assoc front, List.drop_left, List.append_assoc]

end ByteFile
