import Mathlib.Data.List.Basic

/-!
# `Hex` — hexadecimal digits in ASCII

Digits of either case have a value; `upper` and `lower` are the two ways to write one.
-/

namespace Hex

/-- The value of a digit, of either case. -/
def value (b : UInt8) : Option Nat :=
  if 48 ≤ b ∧ b ≤ 57 then some (b.toNat - 48)
  else if 65 ≤ b ∧ b ≤ 70 then some (b.toNat - 55)
  else if 97 ≤ b ∧ b ≤ 102 then some (b.toNat - 87)
  else none

def upper (n : Nat) : UInt8 := if n < 10 then UInt8.ofNat (48 + n) else UInt8.ofNat (55 + n)

def lower (n : Nat) : UInt8 := if n < 10 then UInt8.ofNat (48 + n) else UInt8.ofNat (87 + n)

theorem value_upper : ∀ n < 16, value (upper n) = some n := by decide

theorem value_lower : ∀ n < 16, value (lower n) = some n := by decide

theorem value_lt {b : UInt8} {n : Nat} (h : value b = some n) : n < 16 := by
  unfold value at h
  simp only [UInt8.le_iff_toNat_le, UInt8.reduceToNat] at h
  split at h
  case isTrue hdigit =>
      obtain rfl := Option.some.inj h
      omega
  case isFalse =>
      split at h
      case isTrue hupper =>
          obtain rfl := Option.some.inj h
          omega
      case isFalse =>
          split at h
          case isTrue hlower =>
              obtain rfl := Option.some.inj h
              omega
          case isFalse => cases h

/-- A digit is not NUL, which has no value. -/
theorem lower_ne_zero {n : Nat} (hn : n < 16) : (0 : UInt8) ≠ lower n := by
  intro heq
  have hvalue := value_lower n hn
  rw [← heq] at hvalue
  cases hvalue

/-- A byte with a value is a digit or a letter up to `F`. -/
theorem range_of_value {b : UInt8} {n : Nat} (h : value b = some n) :
    (48 ≤ b ∧ b ≤ 57) ∨ (65 ≤ b ∧ b ≤ 70) ∨ (97 ≤ b ∧ b ≤ 102) := by
  unfold value at h
  split at h
  case isTrue hdigit => exact Or.inl hdigit
  case isFalse =>
      split at h
      case isTrue hupper => exact Or.inr (Or.inl hupper)
      case isFalse =>
          split at h
          case isTrue hlower => exact Or.inr (Or.inr hlower)
          case isFalse => cases h

end Hex
