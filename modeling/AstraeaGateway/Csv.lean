import AstraeaGateway.Data
import AstraeaGateway.Decimal
import AstraeaGateway.Separated

/-!
# `Csv` — the tables the services write, read back

A line of `received.csv` is one number, a line of `throughput.csv` two with a comma between them. The readers
here are not in the repository: they say what a file means, so that a module can state what it accounts for.
`readNumbers_lines` and `readPairs_lines` are the round trips with the writers.
-/

namespace AstraeaGateway
namespace Csv

open Separated

def newline : UInt8 := 10
def comma : UInt8 := 44

/-- The numbers of a file with one on each line. -/
def readNumbers (file : Str) : Option (List Int) := (lines newline file).mapM Decimal.intValue

def readPair (line : Str) : Option (Int × Int) := do
  let (a, b) ← cut comma line
  return (← Decimal.intValue a, ← Decimal.intValue b)

/-- The rows of a file with two numbers on each line. -/
def readPairs (file : Str) : Option (List (Int × Int)) := (lines newline file).mapM readPair

theorem lit_repr (n : Nat) : lit n.repr = Decimal.digits n := congrArg (List.map Decimal.byte) Nat.toList_repr

/-- What `sprintf` writes for a number is its numeral. -/
theorem lit_toString (n : Int) : lit (toString n) = Decimal.text n := by
  unfold Decimal.text
  rw [Int.toString_eq_repr, Int.repr_eq_if]
  split
  case isTrue => exact lit_repr n.toNat
  case isFalse =>
      rw [lit, String.toList_append, List.map_append]
      exact congrArg (Decimal.byte '-' :: ·) (lit_repr (-n).toNat)

theorem newline_not_mem_text (n : Int) : newline ∉ Decimal.text n :=
  Decimal.not_mem_text n (by decide) (by decide)

theorem comma_not_mem_text (n : Int) : comma ∉ Decimal.text n :=
  Decimal.not_mem_text n (by decide) (by decide)

/-- **Reading a column of numbers undoes writing it.** -/
theorem readNumbers_lines (ns : List Int) :
    readNumbers ((ns.map Decimal.text).flatMap (fun l => l ++ [newline])) = some ns := by
  unfold readNumbers
  rw [lines_flatMap]
  · rw [mapM_map_eq_some (fun n _ => Decimal.intValue_text n), List.map_id'' (fun _ => rfl)]
  · intro l hl
    obtain ⟨n, -, rfl⟩ := List.mem_map.mp hl
    exact newline_not_mem_text n

/-- A line with two numbers. -/
def pair (row : Int × Int) : Str := Decimal.text row.1 ++ comma :: Decimal.text row.2

theorem readPair_pair (row : Int × Int) : readPair (pair row) = some row := by
  unfold readPair pair
  rw [cut_append (comma_not_mem_text row.1)]
  simp [Decimal.intValue_text]

/-- A table of lines that can each be read. -/
theorem readPairs_flatMap {α : Type} {line : α → Str} {row : α → Int × Int} {xs : List α}
    (hline : ∀ x ∈ xs, newline ∉ line x) (hrow : ∀ x ∈ xs, readPair (line x) = some (row x)) :
    readPairs ((xs.map line).flatMap (fun l => l ++ [newline])) = some (xs.map row) := by
  unfold readPairs
  rw [lines_flatMap]
  · exact mapM_map_eq_some hrow
  · intro l hl
    obtain ⟨x, hx, rfl⟩ := List.mem_map.mp hl
    exact hline x hx

theorem newline_not_mem_pair (row : Int × Int) : newline ∉ pair row := by
  simp only [pair, List.mem_append, List.mem_cons, not_or]
  exact ⟨newline_not_mem_text row.1, by decide, newline_not_mem_text row.2⟩

/-- **Reading a table of pairs undoes writing it.** -/
theorem readPairs_lines (rows : List (Int × Int)) :
    readPairs ((rows.map pair).flatMap (fun l => l ++ [newline])) = some rows := by
  rw [readPairs_flatMap (fun row _ => newline_not_mem_pair row) (fun row _ => readPair_pair row),
    List.map_id'' (fun _ => rfl)]

end Csv
end AstraeaGateway
