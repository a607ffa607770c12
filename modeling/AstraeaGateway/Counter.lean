import Mathlib.Algebra.Group.Nat.Defs
import Mathlib.Algebra.Ring.Int.Defs

/-!
# `Counter` — an `int` that is only counted up

`++` on an `int` that holds the greatest one has no defined behaviour. Here it is a fault, and
`increment_cases` says all that an increment can do.
-/

namespace Counter

variable {ε : Type} {e : ε} {n m : Int32}

/-- `INT_MAX` -/
def intMax : Int := 2 ^ 31 - 1

/-- `++`, with the fault that it is at the greatest `int`. -/
def increment (overflow : ε) (n : Int32) : Except ε Int32 :=
  if n = Int32.maxValue then .error overflow else .ok (n + 1)

theorem toInt_le_intMax (n : Int32) : n.toInt ≤ intMax := n.toInt_le

/-- Only the greatest `int` is not below the bound. -/
theorem toInt_eq_intMax_iff : n.toInt = intMax ↔ n = Int32.maxValue :=
  Int32.toInt_inj (x := n) (y := Int32.maxValue)

/-- Below the greatest `int`, `+ 1` is the successor. -/
theorem toInt_add_one (h : n.toInt < intMax) : (n + 1).toInt = n.toInt + 1 := by
  have hlow := n.le_toInt
  unfold intMax at h
  rw [Int32.toInt_add]
  show (n.toInt + 1).bmod (2 ^ 32) = n.toInt + 1
  apply Int.bmod_eq_of_le <;> omega

/-- **An increment counts, unless it is at the greatest `int`.** -/
theorem increment_cases (e : ε) (n : Int32) :
    (n.toInt < intMax ∧ ∃ m, increment e n = .ok m ∧ m.toInt = n.toInt + 1) ∨
    (n.toInt = intMax ∧ increment e n = .error e) := by
  by_cases hmax : n = Int32.maxValue
  · exact Or.inr ⟨toInt_eq_intMax_iff.mpr hmax, if_pos hmax⟩
  · have hne : n.toInt ≠ intMax := fun heq => hmax (toInt_eq_intMax_iff.mp heq)
    have hlt : n.toInt < intMax := Int.lt_iff_le_and_ne.mpr ⟨toInt_le_intMax n, hne⟩
    exact Or.inl ⟨hlt, n + 1, if_neg hmax, toInt_add_one hlt⟩

/-- The same with the bound known, and with the bound missed. -/
theorem increment_of_lt (e : ε) (h : n.toInt < intMax) : ∃ m, increment e n = .ok m ∧ m.toInt = n.toInt + 1 := by
  rcases increment_cases e n with ⟨-, hm⟩ | ⟨heq, -⟩
  · exact hm
  · exact absurd heq (Int.ne_of_lt h)

theorem increment_of_not_lt (e : ε) (h : ¬ n.toInt < intMax) : increment e n = .error e := by
  rcases increment_cases e n with ⟨hlt, -⟩ | ⟨-, he⟩
  · exact absurd hlt h
  · exact he

end Counter
