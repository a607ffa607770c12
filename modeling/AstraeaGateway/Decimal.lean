import Mathlib.Algebra.Ring.Nat
import Mathlib.Data.List.Basic

/-!
# `Decimal` — integers as decimal ASCII text

What `printf` writes for `%d` or `%ld`, as bytes, and how it is read back. `intValue_text` is the round trip,
`length_digits_le_iff` and `length_text_le_iff` bound the length of a numeral, and `not_mem_text` says which
bytes it has none of (so that it contains no separator of the format it stands in).
-/

namespace Decimal

/-- An ASCII character as a byte. -/
def byte (c : Char) : UInt8 := UInt8.ofNat c.toNat

/-- The numeral of a natural number, without leading zeros. -/
def digits (n : Nat) : List UInt8 := (Nat.toDigits 10 n).map byte

/-- The numeral of an integer. -/
def text (n : Int) : List UInt8 := if 0 ≤ n then digits n.toNat else byte '-' :: digits (-n).toNat

def isDigit (b : UInt8) : Bool := byte '0' ≤ b && b ≤ byte '9'

/-- The value of a non-empty string of digits. -/
def natValue (s : List UInt8) : Option Nat :=
  if s ≠ [] ∧ s.all isDigit then some (s.foldl (fun n b => 10 * n + (b.toNat - 48)) 0) else none

/-- The value of a numeral with an optional minus sign. -/
def intValue : List UInt8 → Option Int
  | []     => none
  | b :: s => if b = byte '-' then (natValue s).map (fun n : Nat => -(n : Int))
      else (natValue (b :: s)).map (fun n : Nat => (n : Int))

variable {n : Nat} {b : UInt8}

theorem digit_bounds {c : Char} (h : c.isDigit = true) : 48 ≤ c.toNat ∧ c.toNat ≤ 57 := by
  simpa [Char.isDigit, UInt32.le_iff_toNat_le] using h

theorem byte_toNat {c : Char} (h : c.isDigit = true) : (byte c).toNat = c.toNat := by
  have hb := digit_bounds h
  unfold byte
  rw [UInt8.toNat_ofNat']
  omega

theorem isDigit_byte {c : Char} (h : c.isDigit = true) : isDigit (byte c) = true := by
  unfold isDigit
  rw [Bool.and_eq_true, decide_eq_true_eq, decide_eq_true_eq, UInt8.le_iff_toNat_le,
    UInt8.le_iff_toNat_le, byte_toNat h]
  exact digit_bounds h

theorem isDigit_of_mem_digits (h : b ∈ digits n) : isDigit b = true := by
  obtain ⟨c, hc, rfl⟩ := List.mem_map.mp h
  exact isDigit_byte (Nat.isDigit_of_mem_toDigits (by decide) (by decide) hc)

theorem digits_ne_nil : digits n ≠ [] := by
  unfold digits
  rw [Ne, List.map_eq_nil_iff]
  exact Nat.toDigits_ne_nil

/-- **A numeral has at most `k` digits exactly for the numbers below `10 ^ k`.** -/
theorem length_digits_le_iff {k : Nat} (hk : 0 < k) : (digits n).length ≤ k ↔ n < 10 ^ k := by
  unfold digits
  rw [List.length_map]
  exact Nat.length_toDigits_le_iff (by decide) hk

theorem natValue_digits (n : Nat) : natValue (digits n) = some n := by
  have hall : (digits n).all isDigit = true := List.all_eq_true.mpr (fun b hb => isDigit_of_mem_digits hb)
  -- on digits, the value of a byte is the value of its character
  have hstep : ∀ (x : Nat) (c : Char), c ∈ Nat.toDigits 10 n →
      10 * x + ((byte c).toNat - 48) = 10 * x + (c.toNat - '0'.toNat) := by
    intro x c hc
    rw [byte_toNat (Nat.isDigit_of_mem_toDigits (by decide) (by decide) hc)]
    rfl
  unfold natValue
  rw [if_pos ⟨digits_ne_nil, hall⟩, digits, List.foldl_map, List.foldl_ext _ _ _ hstep,
    ← Nat.ofDigitChars_eq_foldl, Nat.ofDigitChars_ten_toDigits]

/-- A numeral has no leading zero. -/
theorem head?_digits_ne_zero (h : 0 < n) : (digits n).head? ≠ some (byte '0') := by
  induction n using Nat.strongRecOn with
  | ind n ih =>
      by_cases hlt : n < 10
      · have hsmall : ∀ n < 10, 0 < n → (digits n).head? ≠ some (byte '0') := by decide
        exact hsmall n hlt h
      · -- the last digit is behind the numeral of the quotient
        have hrest : digits (n / 10) ≠ [] := digits_ne_nil
        unfold digits at hrest ih ⊢
        rw [Nat.toDigits_of_base_le (by decide) (Nat.not_lt.mp hlt), List.map_append,
          List.head?_append_of_ne_nil _ hrest]
        exact ih (n / 10) (by omega) (by omega)

/-- But one may be put in front. -/
theorem natValue_zero_cons {s : List UInt8} (h : s ≠ []) : natValue (byte '0' :: s) = natValue s := by
  have hzero : isDigit (byte '0') = true := by decide
  unfold natValue
  rw [List.all_cons, hzero, Bool.true_and, List.foldl_cons]
  exact if_congr (and_congr_left' (iff_of_true (List.cons_ne_nil _ _) h)) rfl rfl

theorem isDigit_of_natValue {s : List UInt8} (h : natValue s = some n) : ∀ b ∈ s, isDigit b = true := by
  unfold natValue at h
  split at h
  case isTrue hs => exact List.all_eq_true.mp hs.2
  case isFalse => cases h

theorem ne_minus_of_isDigit (h : isDigit b = true) : b ≠ byte '-' := by
  rintro rfl
  cases h

/-- A natural number is read as an integer. -/
theorem intValue_of_natValue {s : List UInt8} (h : natValue s = some n) : intValue s = some (n : Int) := by
  cases s with
  | nil => cases h
  | cons b s =>
      have hb : isDigit b = true := isDigit_of_natValue h b List.mem_cons_self
      rw [intValue, if_neg (ne_minus_of_isDigit hb), h, Option.map_some]

/-- **Reading a numeral undoes writing it.** -/
theorem intValue_text (n : Int) : intValue (text n) = some n := by
  unfold text
  split
  case isTrue h => rw [intValue_of_natValue (natValue_digits n.toNat), Int.toNat_of_nonneg h]
  case isFalse h =>
      have hneg : (0 : Int) ≤ -n := by omega
      rw [intValue, if_pos rfl, natValue_digits, Option.map_some, Int.toNat_of_nonneg hneg, Int.neg_neg]

/-- A numeral is made of digits, and a minus sign. -/
theorem isDigit_or_minus_of_mem_text {n : Int} (h : b ∈ text n) : isDigit b = true ∨ b = byte '-' := by
  unfold text at h
  split at h
  case isTrue => exact Or.inl (isDigit_of_mem_digits h)
  case isFalse =>
      rcases List.mem_cons.mp h with rfl | h
      · exact Or.inr rfl
      · exact Or.inl (isDigit_of_mem_digits h)

/-- So a byte that is neither can be a separator. -/
theorem not_mem_text (n : Int) (hdigit : isDigit b = false) (hminus : b ≠ byte '-') : b ∉ text n := by
  intro h
  rcases isDigit_or_minus_of_mem_text h with hb | hb
  · rw [hdigit] at hb
    cases hb
  · exact hminus hb

theorem length_text_of_nonneg {n : Int} (h : 0 ≤ n) : (text n).length = (digits n.toNat).length := by
  rw [text, if_pos h]

/-- A minus sign takes the place of one digit. -/
theorem length_text_le_iff {n : Int} {k : Nat} (hk : 0 < k) :
    (text n).length ≤ k + 1 ↔ (-n).toNat < 10 ^ k ∧ n.toNat < 10 ^ (k + 1) := by
  have hpos : 0 < 10 ^ k := Nat.pow_pos (by decide)
  unfold text
  split
  case isTrue h =>
      have hneg : (-n).toNat = 0 := by omega
      rw [length_digits_le_iff (Nat.succ_pos k), hneg]
      exact ⟨fun hn => ⟨hpos, hn⟩, And.right⟩
  case isFalse h =>
      have hzero : n.toNat = 0 := by omega
      rw [List.length_cons, Nat.add_le_add_iff_right, length_digits_le_iff hk, hzero]
      exact ⟨fun hn => ⟨hn, Nat.pow_pos (by decide)⟩, And.left⟩

end Decimal
