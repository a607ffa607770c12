import AstraeaGateway.Gateway.Recording
import Mathlib.Algebra.Ring.Int.Defs

/-!
# `Gateway.ThroughputFile` — `record_requests` with its buffers, and its file read back

The numerals go through two arrays of `INT_BUF` bytes, which are bounds-checked here, and so is the index of
the loop, an `int`. The buffers are exact: eleven characters and a NUL hold every `int` (`sprintfBuf_eq`).
`%d` reads the second as an `int` too, so what is written behind 2³¹ reads back as another second
(`readsBack_iff`).
-/

namespace AstraeaGateway
namespace Gateway

/-- `INT_BUF` -/
def intBuf : Nat := 12

/-- `INT_MAX` -/
def intMax : Nat := 2147483647

/-- `sprintf(_, "%d", n)` into an array of `INT_BUF` bytes: the numeral and a NUL. -/
def sprintfBuf (n : Int) : Option Str :=
  if (sprintfD n).length + 1 ≤ intBuf then some (sprintfD n) else none

/-- One iteration of the loop: `str_second`, a comma, `str_requests_n`, and a newline. -/
def recordRow (myfile : Str) (record : UInt32 × Int32) : Option Str := do
  let strSecond ← sprintfBuf (asInt record.1)
  let strRequestsN ← sprintfBuf record.2.toInt
  return myfile ++ strSecond ++ lit "," ++ strRequestsN ++ lit "\n"

/-- The loop from index `i` on. Past `INT_MAX` it cannot count. -/
def recordLoop : Nat → Str → List (UInt32 × Int32) → Option Str
  | _, myfile, []                => some myfile
  | i, myfile, record :: records =>
      (recordRow myfile record).bind (fun myfile =>
        if i < intMax then recordLoop (i + 1) myfile records else none)

/-- `record_requests`: what it writes to `./data/throughput.csv`, opened for writing from its start. -/
def recordRequestsChecked (secondThroughput : List (UInt32 × Int32)) : Option Str :=
  recordLoop 0 [] secondThroughput

/-! ## The buffers -/

theorem length_text_int32 (n : Int32) : (Decimal.text n.toInt).length ≤ 11 := by
  have hlow := n.le_toInt
  have hhigh := n.toInt_lt
  refine (Decimal.length_text_le_iff (k := 10) (by decide)).mpr ⟨?_, ?_⟩
  · omega
  · omega

/-- **Every `int` fits in the buffer.** -/
theorem sprintfBuf_eq (n : Int32) : sprintfBuf n.toInt = some (sprintfD n.toInt) := by
  have hlength : (sprintfD n.toInt).length ≤ 11 := by
    rw [sprintfD, Csv.lit_toString]
    exact length_text_int32 n
  exact if_pos (Nat.succ_le_succ hlength)

/-- An entry as `Metrics` has it, with an unbounded count. -/
def unbounded (record : UInt32 × Int32) : UInt32 × Int := (record.1, record.2.toInt)

/-- One iteration appends one line. -/
theorem recordRow_eq (myfile : Str) (record : UInt32 × Int32) :
    recordRow myfile record = some (myfile ++ csvLine (unbounded record)) := by
  have hsecond : sprintfBuf (asInt record.1) = some (sprintfD (asInt record.1)) :=
    sprintfBuf_eq record.1.toInt32
  rw [recordRow, hsecond, sprintfBuf_eq, csvLine, unbounded]
  simp only [Option.bind_eq_bind, Option.bind_some, Option.pure_def, List.append_assoc]

/-! ## The loop -/

/-- **The loop writes a line for each entry**, as long as its index can count them. -/
theorem recordLoop_eq (records : List (UInt32 × Int32)) {i : Nat} (hi : i ≤ intMax) (myfile : Str) :
    recordLoop i myfile records = if i + records.length ≤ intMax
      then some (myfile ++ (records.map unbounded).flatMap csvLine) else none := by
  induction records generalizing i myfile with
  | nil =>
      rw [recordLoop, List.length_nil, Nat.add_zero, if_pos hi, List.map_nil, List.flatMap_nil,
        List.append_nil]
  | cons record records ih =>
      rw [recordLoop, recordRow_eq, Option.bind_some, List.length_cons]
      by_cases hnext : i < intMax
      · rw [if_pos hnext, ih (Nat.succ_le_of_lt hnext), List.append_assoc, List.map_cons, List.flatMap_cons,
          Nat.succ_add, ← Nat.add_succ]
      · rw [if_neg hnext, if_neg (by omega)]

theorem recordRequestsChecked_eq (records : List (UInt32 × Int32)) : recordRequestsChecked records =
    if records.length < 2 ^ 31 then some ((records.map unbounded).flatMap csvLine) else none := by
  have hlength : 0 + records.length ≤ intMax ↔ records.length < 2 ^ 31 := by
    unfold intMax
    omega
  rw [recordRequestsChecked, recordLoop_eq records (Nat.zero_le _) []]
  exact if_congr hlength rfl rfl

/-- **The checks change nothing**: below 2³¹ entries with counts that are `int`s, the file is the one that the
    metrics have. -/
theorem recordRequestsChecked_metrics {m : Metrics} {records : List (UInt32 × Int32)}
    (hm : m.secondThroughput = records.map unbounded) (hlength : records.length < 2 ^ 31) :
    recordRequestsChecked records = some (recordRequests m).throughputCsv := by
  rw [recordRequestsChecked_eq, if_pos hlength, recordRequests, hm]

/-! ## The file, read back -/

/-- What `%d` makes of a second. -/
theorem asInt_eq (second : UInt32) :
    asInt second = if second.toNat < 2 ^ 31 then (second.toNat : Int) else (second.toNat : Int) - 2 ^ 32 := by
  have hvalue : asInt second = second.toBitVec.toInt := rfl
  rw [hvalue, BitVec.toInt_eq_toNat_cond]
  show (if 2 * second.toNat < 2 ^ 32 then (second.toNat : Int) else (second.toNat : Int) - 2 ^ 32) = _
  exact if_congr (by omega) rfl rfl

theorem asInt_eq_toNat_iff (second : UInt32) : asInt second = second.toNat ↔ second.toNat < 2 ^ 31 := by
  rw [asInt_eq]
  split
  case isTrue h => exact iff_of_true rfl h
  case isFalse h => exact iff_of_false (by omega) h

/-- An entry as the two numbers that it is. -/
def row (record : UInt32 × Int32) : Int × Int := (record.1.toNat, record.2.toInt)

/-- **The file reads back exactly if every second is below 2³¹**, and the index of the loop can count the
    entries. -/
theorem readsBack_iff (secondThroughput : List (UInt32 × Int32)) :
    (∃ file, recordRequestsChecked secondThroughput = some file ∧
        Csv.readPairs file = some (secondThroughput.map row))
      ↔ secondThroughput.length < 2 ^ 31 ∧ ∀ record ∈ secondThroughput, record.1.toNat < 2 ^ 31 := by
  have hread : Csv.readPairs ((secondThroughput.map unbounded).flatMap csvLine)
      = some (secondThroughput.map (fun record => (asInt record.1, record.2.toInt))) := by
    have h := readPairs_recordRequests ⟨0, secondThroughput.map unbounded, []⟩
    rw [recordRequests, List.map_map] at h
    exact h
  have hrows : secondThroughput.map (fun record => (asInt record.1, record.2.toInt))
        = secondThroughput.map row ↔ ∀ record ∈ secondThroughput, record.1.toNat < 2 ^ 31 := by
    rw [List.map_inj_left]
    refine forall₂_congr (fun record _ => ?_)
    rw [row, Prod.mk.injEq, ← asInt_eq_toNat_iff]
    exact and_iff_left rfl
  rw [recordRequestsChecked_eq, ← hrows]
  constructor
  · rintro ⟨file, hfile, hback⟩
    split at hfile
    case isFalse => cases hfile
    case isTrue hlength =>
        obtain rfl := Option.some.inj hfile
        rw [hread] at hback
        exact ⟨hlength, Option.some.inj hback⟩
  · rintro ⟨hlength, hsame⟩
    refine ⟨_, if_pos hlength, ?_⟩
    rw [hread, hsame]

/-- The first second of the other half. -/
theorem second_wraps : ¬ ∃ file, recordRequestsChecked [(2147483648, 1)] = some file ∧
    Csv.readPairs file = some ([(2147483648, 1)].map row) := by
  rintro ⟨file, hfile, hback⟩
  have hwritten : recordRequestsChecked [(2147483648, 1)] = some (lit "-2147483648,1\n") := by decide
  rw [hwritten] at hfile
  obtain rfl := Option.some.inj hfile
  exact absurd hback (by decide)

end Gateway
end AstraeaGateway
