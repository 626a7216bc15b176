import SchemaChange.Calendar.Text
import SchemaChange.Text.Blank
import SchemaChange.Text.Digit

/-!
# Digits that are read back

The characters that have a value as digits, and what is read from the digits that a number is
written with, leading zeros included.
-/
namespace SchemaChange.Text

theorem digitValue?_eq (c : Char) :
    digitValue? c = if c.isDigit then some (c.toNat - '0'.toNat) else none := by
  have hiff : ('0' ≤ c ∧ c ≤ '9') ↔ c.isDigit = true := by
    simp [Char.isDigit, Char.le_def]
  simp only [digitValue?, hiff]

theorem isSome_digitValue? (c : Char) : (digitValue? c).isSome = c.isDigit := by
  rw [digitValue?_eq]
  split <;> simp_all

theorem digitValue?_digitChar {n : Nat} (h : n < 10) : digitValue? n.digitChar = some n := by
  rw [digitValue?_eq, Nat.isDigit_digitChar, if_pos (by simpa using h)]
  exact congrArg some (Nat.toNat_digitChar_sub_48_of_lt_ten h)

theorem hexValue?_digitChar : ∀ n < 16, hexValue? (Nat.digitChar n) = some n := by decide

theorem isBlank_of_isDigit {c : Char} (h : c.isDigit = true) : isBlank c = false := by
  have hrange : 48 ≤ c.toNat ∧ c.toNat ≤ 57 := by
    simpa [Char.isDigit, Char.le_def, UInt32.le_iff_toNat_le] using h
  simp only [isBlank, Bool.or_eq_false_iff, Bool.and_eq_false_iff, beq_eq_false_iff_ne,
    decide_eq_false_iff_not]
  omega

/-- The step by which digits are read from left to right. -/
def readDigit (value : Option Nat) (c : Char) : Option Nat := do
  return 10 * (← value) + (← digitValue? c)

theorem readDigit_some (value : Nat) (c : Char) : readDigit (some value) c =
    if c.isDigit then some (10 * value + (c.toNat - '0'.toNat)) else none := by
  by_cases hc : c.isDigit = true <;> simp [readDigit, digitValue?_eq, hc]

theorem foldl_readDigit_none (cs : List Char) : cs.foldl readDigit none = none := by
  induction cs with
  | nil => rfl
  | cons c cs ih => exact ih

theorem foldl_readDigit (cs : List Char) (value : Nat) : cs.foldl readDigit (some value) =
    if cs.all Char.isDigit then some (Nat.ofDigitChars 10 cs value) else none := by
  induction cs generalizing value with
  | nil => rfl
  | cons c cs ih =>
      rw [List.foldl_cons, readDigit_some]
      by_cases hc : c.isDigit = true
      · rw [if_pos hc, ih, Nat.ofDigitChars_cons]
        simp [hc]
      · rw [if_neg hc, foldl_readDigit_none]
        simp [hc]

/-- Only digits denote a number. -/
theorem readDecimal?_eq {cs : List Char} (hne : cs ≠ []) : readDecimal? cs =
    if cs.all Char.isDigit then some (Nat.ofDigitChars 10 cs 0) else none := by
  have hread : readDecimal? cs = cs.foldl readDigit (some 0) := by
    cases cs with
    | nil => exact absurd rfl hne
    | cons c cs => rfl
  rw [hread, foldl_readDigit]

end SchemaChange.Text

namespace SchemaChange

/-- A written number begins with a digit. -/
theorem exists_toDigits (n : Nat) : ∃ c cs, Nat.toDigits 10 n = c :: cs ∧ c.isDigit = true := by
  obtain ⟨c, cs, hdigits⟩ := List.exists_cons_of_ne_nil (Nat.toDigits_ne_nil (b := 10) (n := n))
  exact ⟨c, cs, hdigits, Nat.isDigit_of_mem_toDigits (by decide) (by decide)
    (hdigits ▸ List.mem_cons_self ..)⟩

theorem isDigit_padded {width n : Nat} {c : Char} (h : c ∈ padded width n) : c.isDigit = true := by
  rcases List.mem_append.1 h with h | h
  · rw [List.eq_of_mem_replicate h]
    rfl
  · exact Nat.isDigit_of_mem_toDigits (by decide) (by decide) h

theorem padded_ne_nil (width n : Nat) : padded width n ≠ [] := by
  rw [padded, Ne, List.append_eq_nil_iff]
  exact fun h => Nat.toDigits_ne_nil h.2

/-- A padded number begins with a digit. -/
theorem exists_padded (width n : Nat) : ∃ c cs, padded width n = c :: cs ∧ c.isDigit = true := by
  obtain ⟨c, cs, hpadded⟩ := List.exists_cons_of_ne_nil (padded_ne_nil width n)
  exact ⟨c, cs, hpadded, isDigit_padded (hpadded ▸ List.mem_cons_self ..)⟩

/-- Leading zeros do not change a number. -/
theorem readDecimal?_padded (width n : Nat) : Text.readDecimal? (padded width n) = some n := by
  have hall : (padded width n).all Char.isDigit = true :=
    List.all_eq_true.2 fun c => isDigit_padded
  rw [Text.readDecimal?_eq (padded_ne_nil width n), if_pos hall, padded,
    Nat.ofDigitChars_append, Nat.ofDigitChars_replicate_zero, Nat.mul_zero,
    Nat.ofDigitChars_ten_toDigits]

/-- A number that fits has exactly the width. -/
theorem length_padded {width n : Nat} (hwidth : 0 < width) (h : n < Nat.pow 10 width) :
    (padded width n).length = width := by
  have hle := (Nat.length_toDigits_le_iff (by decide : 1 < 10) hwidth).2 h
  rw [padded, List.length_append, List.length_replicate]
  omega

end SchemaChange
