import Mathlib.Data.List.Induction
import Mathlib.Data.List.Basic

/-!
# Letter case of ASCII strings

Two strings are equal up to case when their lower-case forms are equal. Whatever is not a letter is the same in both, and what
only asks which characters are letters cannot tell them apart.
-/

namespace AsciiCase

section
variable {c x : Char}

theorem isUpper_iff : c.isUpper = true ↔ 65 ≤ c.toNat ∧ c.toNat ≤ 90 := by
  have h : c.isUpper = decide (c.val ≥ 'A'.val ∧ c.val ≤ 'Z'.val) := rfl
  rw [h, decide_eq_true_iff, ge_iff_le, UInt32.le_iff_toNat_le, UInt32.le_iff_toNat_le]
  exact Iff.rfl

theorem isLower_iff : c.isLower = true ↔ 97 ≤ c.toNat ∧ c.toNat ≤ 122 := by
  have h : c.isLower = (decide (c.val ≥ 'a'.val) && decide (c.val ≤ 'z'.val)) := rfl
  rw [h, Bool.and_eq_true, decide_eq_true_iff, decide_eq_true_iff, ge_iff_le, UInt32.le_iff_toNat_le, UInt32.le_iff_toNat_le]
  exact Iff.rfl

theorem toNat_toLower (c : Char) : c.toLower.toNat = if 65 ≤ c.toNat ∧ c.toNat ≤ 90 then c.toNat + 32 else c.toNat := by
  unfold Char.toLower
  split_ifs with hupper hrange hrange
  · have hval : c.val.toNat = c.toNat := rfl
    show (c.val + ('a'.val - 'A'.val)).toNat = _
    have hstep : ('a'.val - 'A'.val).toNat = 32 := by decide
    rw [UInt32.toNat_add, hval, hstep]
    omega
  · simp [UInt32.le_iff_toNat_le] at hupper
    omega
  · simp [UInt32.le_iff_toNat_le] at hupper
    omega
  · rfl

theorem toNat_toUpper (c : Char) : c.toUpper.toNat = if 97 ≤ c.toNat ∧ c.toNat ≤ 122 then c.toNat - 32 else c.toNat := by
  unfold Char.toUpper
  split_ifs with hlower hrange hrange
  · have hval : c.val.toNat = c.toNat := rfl
    show (c.val + ('A'.val - 'a'.val)).toNat = _
    have hstep : ('A'.val - 'a'.val).toNat = 4294967264 := by decide
    rw [UInt32.toNat_add, hval, hstep]
    omega
  · simp [UInt32.le_iff_toNat_le] at hlower
    omega
  · simp [UInt32.le_iff_toNat_le] at hlower
    omega
  · rfl

theorem toNat_inj : c.toNat = x.toNat ↔ c = x := Char.toNat_inj

theorem isAlpha_iff : c.isAlpha = true ↔ (65 ≤ c.toNat ∧ c.toNat ≤ 90) ∨ (97 ≤ c.toNat ∧ c.toNat ≤ 122) := by
  have h : c.isAlpha = (c.isUpper || c.isLower) := rfl
  rw [h, Bool.or_eq_true, isUpper_iff, isLower_iff]

@[simp] theorem isAlpha_toLower (c : Char) : c.toLower.isAlpha = c.isAlpha := by
  rw [Bool.eq_iff_iff, isAlpha_iff, isAlpha_iff, toNat_toLower]
  split_ifs <;> omega

@[simp] theorem isAlpha_toUpper (c : Char) : c.toUpper.isAlpha = c.isAlpha := by
  rw [Bool.eq_iff_iff, isAlpha_iff, isAlpha_iff, toNat_toUpper]
  split_ifs <;> omega

@[simp] theorem toLower_toLower (c : Char) : c.toLower.toLower = c.toLower := by
  rw [← toNat_inj, toNat_toLower, toNat_toLower]
  split_ifs <;> omega

@[simp] theorem toLower_toUpper (c : Char) : c.toUpper.toLower = c.toLower := by
  rw [← toNat_inj, toNat_toLower, toNat_toLower, toNat_toUpper]
  split_ifs <;> omega

@[simp] theorem toUpper_toUpper (c : Char) : c.toUpper.toUpper = c.toUpper := by
  rw [← toNat_inj, toNat_toUpper, toNat_toUpper]
  split_ifs <;> omega

@[simp] theorem toUpper_toLower (c : Char) : c.toLower.toUpper = c.toUpper := by
  rw [← toNat_inj, toNat_toUpper, toNat_toUpper, toNat_toLower]
  split_ifs <;> omega

theorem toLower_of_not_isAlpha (h : c.isAlpha = false) : c.toLower = c := by
  rw [← Bool.not_eq_true, isAlpha_iff] at h
  rw [← toNat_inj, toNat_toLower, if_neg (by omega)]

theorem toUpper_of_not_isAlpha (h : c.isAlpha = false) : c.toUpper = c := by
  rw [← Bool.not_eq_true, isAlpha_iff] at h
  rw [← toNat_inj, toNat_toUpper, if_neg (by omega)]

/-- A character that is not a letter is the lower-case form of itself only. -/
theorem toLower_eq_iff (hx : x.isAlpha = false) : c.toLower = x ↔ c = x := by
  constructor
  · intro h
    have hc : c.isAlpha = false := by rw [← isAlpha_toLower, h, hx]
    rw [← h, toLower_of_not_isAlpha hc]
  · rintro rfl
    exact toLower_of_not_isAlpha hx

end

def lower (s : List Char) : List Char := s.map Char.toLower
def upper (s : List Char) : List Char := s.map Char.toUpper

/-- The first part up to a character, and what is behind it. -/
def splitOnce (x : Char) : List Char → Option (List Char × List Char)
  | [] => none
  | c :: s => if c = x then some ([], s) else (splitOnce x s).map fun r => (c :: r.1, r.2)

variable {s t a b : List Char} {c x : Char}

@[simp] theorem lower_nil : lower [] = [] := rfl
@[simp] theorem upper_nil : upper [] = [] := rfl
@[simp] theorem lower_cons (c : Char) (s : List Char) : lower (c :: s) = c.toLower :: lower s := rfl
@[simp] theorem upper_cons (c : Char) (s : List Char) : upper (c :: s) = c.toUpper :: upper s := rfl
@[simp] theorem lower_append (s t : List Char) : lower (s ++ t) = lower s ++ lower t := List.map_append
@[simp] theorem upper_append (s t : List Char) : upper (s ++ t) = upper s ++ upper t := List.map_append
@[simp] theorem length_lower (s : List Char) : (lower s).length = s.length := List.length_map _
@[simp] theorem length_upper (s : List Char) : (upper s).length = s.length := List.length_map _
@[simp] theorem lower_lower (s : List Char) : lower (lower s) = lower s := by simp [lower]
@[simp] theorem lower_upper (s : List Char) : lower (upper s) = lower s := by simp [lower, upper]
@[simp] theorem upper_upper (s : List Char) : upper (upper s) = upper s := by simp [upper]
@[simp] theorem upper_lower (s : List Char) : upper (lower s) = upper s := by simp [lower, upper]

theorem length_eq (h : lower t = lower s) : t.length = s.length := by rw [← length_lower t, h, length_lower]

theorem upper_congr (h : lower t = lower s) : upper t = upper s := by rw [← upper_lower t, h, upper_lower]

theorem mem_lower_iff (hx : x.isAlpha = false) : x ∈ lower s ↔ x ∈ s := by
  simp [lower, toLower_eq_iff hx]

/-- What is not a letter stands in both strings or in neither. -/
theorem mem_congr (hx : x.isAlpha = false) (h : lower t = lower s) : x ∈ t ↔ x ∈ s := by rw [← mem_lower_iff hx, h, mem_lower_iff hx]

theorem splitOnce_eq_some : splitOnce x s = some (a, b) ↔ s = a ++ x :: b ∧ x ∉ a := by
  induction s generalizing a with
  | nil => simp [splitOnce]
  | cons c s ih =>
    rw [splitOnce]
    by_cases hc : c = x
    · subst hc
      rw [if_pos rfl, Option.some.injEq, Prod.mk.injEq]
      constructor
      · rintro ⟨rfl, rfl⟩
        exact ⟨rfl, List.not_mem_nil⟩
      · rintro ⟨heq, hmem⟩
        cases a with
        | nil =>
          cases heq
          exact ⟨rfl, rfl⟩
        | cons d a =>
          cases heq
          exact absurd List.mem_cons_self hmem
    · rw [if_neg hc, Option.map_eq_some_iff]
      constructor
      · rintro ⟨⟨a', b'⟩, hr, heq⟩
        cases heq
        obtain ⟨rfl, hmem⟩ := ih.1 hr
        exact ⟨rfl, fun h => (List.mem_cons.1 h).elim (fun h => hc h.symm) hmem⟩
      · rintro ⟨heq, hmem⟩
        cases a with
        | nil =>
          cases heq
          exact absurd rfl hc
        | cons d a =>
          cases heq
          exact ⟨(a, b), ih.2 ⟨rfl, fun h => hmem (List.mem_cons_of_mem _ h)⟩, rfl⟩

theorem splitOnce_eq_none : splitOnce x s = none ↔ x ∉ s := by
  induction s with
  | nil => simp [splitOnce]
  | cons c s ih =>
    rw [splitOnce]
    by_cases hc : c = x
    · simp [hc]
    · rw [if_neg hc, Option.map_eq_none_iff, ih, List.mem_cons, not_or]
      exact ⟨fun h => ⟨fun h' => hc h'.symm, h⟩, fun h => h.2⟩

theorem splitOnce_append (h : x ∉ a) : splitOnce x (a ++ x :: b) = some (a, b) := splitOnce_eq_some.2 ⟨rfl, h⟩

/-- The pieces are shorter. -/
theorem length_of_splitOnce (h : splitOnce x s = some (a, b)) : a.length < s.length ∧ b.length < s.length := by
  obtain ⟨rfl, -⟩ := splitOnce_eq_some.1 h
  rw [List.length_append, List.length_cons]
  omega

/-- Strings that are equal up to case are cut alike when the first pieces are as long as each other. -/
theorem append_congr {a' b' : List Char} (h : lower (a' ++ x :: b') = lower (a ++ x :: b)) (hlen : a'.length = a.length) :
    lower a' = lower a ∧ lower b' = lower b := by
  rw [lower_append, lower_append, lower_cons, lower_cons] at h
  obtain ⟨ha, hb⟩ := List.append_inj h (by rw [length_lower, length_lower, hlen])
  exact ⟨ha, (List.cons.inj hb).2⟩

end AsciiCase
