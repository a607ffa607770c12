import AstraeaGateway.Csv
import AstraeaGateway.SortBy
import Mathlib.Algebra.Ring.Int.Defs

/-!
# `Scripts.SendRequest` — the latency files of `send_request.sh`, and their order in `run.sh`

Each request writes its number and its send time to a file, named after the number with zeros in front.
`run.sh` collects the files in the order of `ls | sort` and pastes the result next to the arrival times, line
by line. The second padding step evaluates the string that the first has padded, and to Bash a number with a
0 in front is octal: 8 and 9 get one zero only (`fileName_eq`).
-/

namespace AstraeaGateway
namespace Scripts

open SortBy

/-! ## `send_request.sh` -/

def zero : UInt8 := Decimal.byte '0'

def isOctal (b : UInt8) : Bool := zero ≤ b && b ≤ Decimal.byte '7'

/-- An integer constant of Bash arithmetic, octal with a 0 in front and decimal otherwise. An octal one with
    a digit that is too great for the base is an error. -/
def constant (s : Str) : Option Nat :=
  if s.head? = some zero then
    if s.all isOctal then some (s.foldl (fun n b => 8 * n + (b.toNat - 48)) 0) else none
  else Decimal.natValue s

/-- The value of a constant, or of one with a minus sign, in the 64 bits of Bash arithmetic. The only other
    expression that comes up is `0-1`, for the call that writes no file. -/
def arith : Str → Option Int
  | []     => some 0
  | b :: s => if b = Decimal.byte '-' then (constant s).map (fun n : Nat => (-(n : Int)).bmod (2 ^ 64))
      else (constant (b :: s)).map (fun n : Nat => (n : Int).bmod (2 ^ 64))

/-- `[[ $enumerate -eq n ]]`. An expression with an error is not equal to anything. -/
def testEq (enumerate : Str) (n : Int) : Bool := (arith enumerate).any (fun value => value == n)

/-- `[[ $enumerate -lt n ]]`. An expression with an error is not less than anything. -/
def testLt (enumerate : Str) (n : Int) : Bool := (arith enumerate).any (fun value => decide (value < n))

/-- `if [[ $enumerate -lt bound ]]; then enumerate="0$enumerate"` -/
def pad (bound : Int) (enumerate : Str) : Str := if testLt enumerate bound then zero :: enumerate else enumerate

/-- A file in `./latencies`. -/
structure LatencyFile where
  name     : Str
  contents : Str
deriving DecidableEq, Repr

/-- `send_request.sh`: the file that it appends its line to, if any. No two requests have the same file
    (`fileName_injective`), so the line is all there is in it. -/
def sendRequest (enumerate : Str) (time1 : Int) : Option LatencyFile :=
  let noWrite := testEq enumerate (-1)
  let enumerate := pad 10 enumerate
  let enumerate := pad 100 enumerate
  if noWrite then none else some ⟨enumerate, enumerate ++ lit "," ++ lit (toString time1) ++ lit "\n"⟩

/-! ## `run.sh` -/

/-- `./latencies`, after requests that write in the given order. They are sent in the background. -/
def latencies (time1 : Nat → Int) (order : List Nat) : List LatencyFile :=
  order.filterMap (fun i => sendRequest (lit (toString i)) (time1 i))

/-- `echo $(cat -e $file)`, without the `$` at the end of each line that `sed` takes out again: the lines of
    the file, on one line. -/
def echoed (contents : Str) : Str := (lit " ").intercalate (Separated.lines Csv.newline contents) ++ lit "\n"

/-- `sent.csv`: the files in the order of `ls $dir | sort`, bytewise. -/
def sentCsv (dir : List LatencyFile) : Str :=
  (sortBy LatencyFile.name dir).flatMap (fun file => echoed file.contents)

/-! ## Names -/

/-- The name of the file of request `i`. -/
def fileName (i : Nat) : Str := pad 100 (pad 10 (Decimal.digits i))

theorem natValue_pad (bound : Int) {enumerate : Str} (h : enumerate ≠ []) :
    Decimal.natValue (pad bound enumerate) = Decimal.natValue enumerate := by
  unfold pad
  split
  · exact Decimal.natValue_zero_cons h
  · rfl

theorem pad_ne_nil (bound : Int) {enumerate : Str} (h : enumerate ≠ []) : pad bound enumerate ≠ [] := by
  unfold pad
  split
  · exact List.cons_ne_nil _ _
  · exact h

/-- The zeros do not change the number. -/
theorem natValue_fileName (i : Nat) : Decimal.natValue (fileName i) = some i := by
  rw [fileName, natValue_pad 100 (pad_ne_nil 10 Decimal.digits_ne_nil), natValue_pad 10 Decimal.digits_ne_nil,
    Decimal.natValue_digits]

/-- **No two requests have the same file.** -/
theorem fileName_injective : Function.Injective fileName := by
  intro i j h
  have hvalue := natValue_fileName i
  rw [h, natValue_fileName] at hvalue
  exact (Option.some.inj hvalue).symm

/-- A number without zeros in front evaluates to itself. -/
theorem arith_digits {i : Nat} (h : i < 2 ^ 63) : arith (Decimal.digits i) = some (i : Int) := by
  have hconstant : constant (Decimal.digits i) = some i := by
    rcases Nat.eq_zero_or_pos i with rfl | hpos
    · decide
    · have hhead : (Decimal.digits i).head? ≠ some zero := Decimal.head?_digits_ne_zero hpos
      rw [constant, if_neg hhead, Decimal.natValue_digits]
  obtain ⟨b, s, hs⟩ := List.exists_cons_of_ne_nil (Decimal.digits_ne_nil (n := i))
  have hb : Decimal.isDigit b = true := Decimal.isDigit_of_mem_digits (n := i) (hs ▸ List.mem_cons_self)
  rw [hs, arith, if_neg (Decimal.ne_minus_of_isDigit hb), ← hs, hconstant, Option.map_some,
    Int.bmod_eq_of_le (by omega) (by omega)]

theorem testLt_digits {i : Nat} (h : i < 2 ^ 63) (bound : Int) :
    testLt (Decimal.digits i) bound = decide ((i : Int) < bound) := by
  rw [testLt, arith_digits h, Option.any_some]

/-- With a zero in front, 8 and 9 are errors. -/
theorem testLt_zero_digits : ∀ i < 10, testLt (zero :: Decimal.digits i) 100 = decide (i < 8) := by decide

/-- **The names**: three digits for 0 to 7 and for 10 to 99, but two for 8 and 9. -/
theorem fileName_eq {i : Nat} (h : i < 2 ^ 63) : fileName i = if i < 8 then zero :: zero :: Decimal.digits i
    else if i < 100 then zero :: Decimal.digits i else Decimal.digits i := by
  unfold fileName
  by_cases hten : i < 10
  · have hfirst : pad 10 (Decimal.digits i) = zero :: Decimal.digits i := by
      rw [pad, testLt_digits h, if_pos (decide_eq_true (by omega))]
    rw [hfirst, pad, testLt_zero_digits i hten]
    by_cases height : i < 8
    · rw [if_pos (decide_eq_true height), if_pos height]
    · rw [if_neg (by simpa using height), if_neg height, if_pos (by omega)]
  · have hfirst : pad 10 (Decimal.digits i) = Decimal.digits i := by
      rw [pad, testLt_digits h, if_neg (by rw [decide_eq_true_eq]; omega)]
    rw [hfirst, pad, testLt_digits h, if_neg (show ¬ i < 8 by omega)]
    exact if_congr (by rw [decide_eq_true_eq]; omega) rfl rfl

/-! ## `sent.csv`, read back -/

/-- The line of request `i`, sent at `time1`. -/
def sentLine (time1 : Nat → Int) (i : Nat) : Str := fileName i ++ Csv.comma :: Decimal.text (time1 i)

/-- The file of request `i`. -/
def latencyFile (time1 : Nat → Int) (i : Nat) : LatencyFile := ⟨fileName i, sentLine time1 i ++ [Csv.newline]⟩

theorem sendRequest_eq (time1 : Nat → Int) {i : Nat} (h : i < 2 ^ 63) :
    sendRequest (lit (toString i)) (time1 i) = some (latencyFile time1 i) := by
  have hdigits : lit (toString i) = Decimal.digits i := Csv.lit_repr i
  have hwrite : ¬ testEq (Decimal.digits i) (-1) = true := by
    rw [testEq, arith_digits h, Option.any_some, beq_iff_eq]
    omega
  rw [sendRequest, hdigits, if_neg hwrite, Csv.lit_toString, latencyFile, sentLine, fileName]
  simp [lit, Csv.comma, Csv.newline]

theorem not_mem_fileName {b : UInt8} (hdigit : Decimal.isDigit b = false) (i : Nat) : b ∉ fileName i := by
  intro h
  rw [Decimal.isDigit_of_natValue (natValue_fileName i) b h] at hdigit
  cases hdigit

theorem newline_not_mem_sentLine (time1 : Nat → Int) (i : Nat) : Csv.newline ∉ sentLine time1 i := by
  simp only [sentLine, List.mem_append, List.mem_cons, not_or]
  exact ⟨not_mem_fileName rfl i, by decide, Csv.newline_not_mem_text _⟩

theorem readPair_sentLine (time1 : Nat → Int) (i : Nat) :
    Csv.readPair (sentLine time1 i) = some ((i : Int), time1 i) := by
  unfold Csv.readPair sentLine
  rw [Separated.cut_append (not_mem_fileName rfl i)]
  simp [Decimal.intValue_of_natValue (natValue_fileName i), Decimal.intValue_text]

/-- A file with one line is copied as it is. -/
theorem echoed_line {line : Str} (h : Csv.newline ∉ line) :
    echoed (line ++ [Csv.newline]) = line ++ [Csv.newline] := by
  have hlines : Separated.lines Csv.newline (line ++ [Csv.newline]) = [line] := by
    have hone : Separated.lines Csv.newline ([line].flatMap (fun l => l ++ [Csv.newline])) = [line] :=
      Separated.lines_flatMap (by simpa using h)
    rwa [List.flatMap_singleton] at hone
  rw [echoed, hlines]
  simp [lit, Csv.newline]

/-- **`sent.csv` has a row for each request, in the order of the file names.** -/
theorem readPairs_sentCsv (time1 : Nat → Int) {order : List Nat} (h : ∀ i ∈ order, i < 2 ^ 63) :
    Csv.readPairs (sentCsv (latencies time1 order))
      = some ((sortBy fileName order).map (fun i : Nat => ((i : Int), time1 i))) := by
  have hfiles : latencies time1 order = order.map (latencyFile time1) := by
    rw [latencies, ← List.filterMap_eq_map]
    exact List.filterMap_congr (fun i hi => sendRequest_eq time1 (h i hi))
  have hlines : sentCsv (latencies time1 order)
      = ((sortBy fileName order).map (sentLine time1)).flatMap (fun l => l ++ [Csv.newline]) := by
    rw [hfiles, sentCsv, sortBy_map, List.flatMap_map, List.flatMap_map]
    exact congrArg (List.flatMap · (sortBy fileName order))
      (funext (fun i => echoed_line (newline_not_mem_sentLine time1 i)))
  rw [hlines]
  exact Csv.readPairs_flatMap (fun i _ => newline_not_mem_sentLine time1 i)
    (fun i _ => readPair_sentLine time1 i)

/-! ## The order -/

/-- The names of the requests `0` to `it - 1` differ, and come in the order of the requests. -/
def NamesInOrder (it : Nat) : Prop :=
  ∀ i j, i < j → j < it → fileName i ≠ fileName j ∧ fileName i < fileName j

theorem namesInOrder_iff (it : Nat) : NamesInOrder it ↔ it ≤ 10 := by
  have hten : ∀ j < 10, ∀ i < j, fileName i < fileName j := by decide
  have hwrong : ¬ fileName 8 < fileName 10 := by decide
  constructor
  · intro h
    by_contra hmore
    exact hwrong (h 8 10 (by decide) (by omega)).2
  · intro hit i j hij hj
    exact ⟨fun heq => absurd (fileName_injective heq) (Nat.ne_of_lt hij), hten j (by omega) i hij⟩

/-- `sent.csv` has the rows of the requests `0` to `it - 1` in this order, whatever the order in which they
    have written their files. -/
def SentInOrder (it : Nat) (time1 : Nat → Int) : Prop :=
  ∀ order : List Nat, order.Perm (List.range it) →
    Csv.readPairs (sentCsv (latencies time1 order)) = some ((List.range it).map (fun i : Nat => ((i : Int), time1 i)))

/-- Names in order are all that it takes. -/
theorem SentInOrder.of_names {it : Nat} (hit : it ≤ 2 ^ 63) (h : NamesInOrder it) (time1 : Nat → Int) :
    SentInOrder it time1 := by
  intro order hperm
  have hbound : ∀ i ∈ order, i < 2 ^ 63 :=
    fun i hi => Nat.lt_of_lt_of_le (List.mem_range.mp (hperm.mem_iff.mp hi)) hit
  have hnames : (List.range it).Pairwise (fun i j => fileName i < fileName j) := by
    refine List.Pairwise.imp_of_mem ?_ List.pairwise_lt_range
    intro i j _ hj hij
    exact (h i j hij (List.mem_range.mp hj)).2
  rw [readPairs_sentCsv time1 hbound, sortBy_eq_of_perm hnames hperm]

/-- **The files sort in request order exactly for up to ten requests.** -/
theorem inRequestOrder_iff (it : Nat) (time1 : Nat → Int) :
    (NamesInOrder it ∧ SentInOrder it time1) ↔ it ≤ 10 := by
  rw [namesInOrder_iff]
  constructor
  · exact And.left
  · intro hit
    exact ⟨hit, SentInOrder.of_names (by omega) ((namesInOrder_iff it).mpr hit) time1⟩

/-- `run.sh` sends 90000 requests. Number 8 comes behind number 10. -/
theorem eight_behind_ten : fileName 8 = lit "08" ∧ fileName 10 = lit "010" ∧ fileName 10 < fileName 8 ∧
    ¬ NamesInOrder 90000 := by
  refine ⟨by decide, by decide, by decide, ?_⟩
  intro h
  exact absurd (h 8 10 (by decide) (by decide)).2 (by decide)

end Scripts
end AstraeaGateway
