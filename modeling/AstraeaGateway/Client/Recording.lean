import AstraeaGateway.Checked
import AstraeaGateway.Csv
import Mathlib.Algebra.Ring.Int.Defs

/-!
# `Client.Recording` — `record_response_times`

The client writes the arrival times to `received.csv`, one on a line, through a buffer of `INT_BUF` bytes, and
then prints a file `response_times.csv`. Which of the two files can be opened is a parameter: neither `fopen` is
checked, and nothing in the repository creates the second. `recorded_iff` says for which times `received.csv`
gets its lines, and `recordResponseTimes_iff` when the function returns.
-/

namespace AstraeaGateway
namespace Client

open Checked

/-- How an execution ends that has no defined behaviour. -/
inductive Fault
  | overrun   -- `sprintf` writes behind `str_millis`
  | overflow  -- the loop index passes `INT_MAX`
  | nullFile  -- `fprintf` or `fgetc` on a NULL `FILE *`
deriving DecidableEq, Repr

/-- The files that `fopen` opens. -/
structure Files where
  received      : Bool  -- `/received/received.csv`, for writing
  responseTimes : Bool  -- `/received/response_times.csv`, for reading
deriving DecidableEq, Repr

/-- `INT_BUF` -/
def intBuf : Nat := 12

/-- `INT_MAX` -/
def intMax : Nat := 2147483647

/-- `sprintf(str_millis, "%ld", millis)`, which writes the numeral and a NUL. -/
def sprintfMillis (millis : Int) : Except Fault Str :=
  let numeral := lit (toString millis)
  if numeral.length + 1 ≤ intBuf then .ok numeral else .error .overrun

/-- `fprintf(fp, ..)`, with `fp` the contents of the file, or NULL. -/
def fprintf (text : Str) : Option Str → Except Fault (Option Str)
  | some file => .ok (some (file ++ text))
  | none      => .error .nullFile

/-- One iteration of the loop: `fprintf(fp, "%s\n", str_millis)`. -/
def recordTime (fp : Option Str) (millis : Int) : Except Fault (Option Str) := do
  let strMillis ← sprintfMillis millis
  fprintf (strMillis ++ lit "\n") fp

/-- The loop from index `i` on. Past `INT_MAX` it cannot count. -/
def recordLoop : Nat → Option Str → List Int → Except Fault (Option Str)
  | _, fp, []              => .ok fp
  | i, fp, millis :: times => do
      let fp ← recordTime fp millis
      if i < intMax then recordLoop (i + 1) fp times else .error .overflow

/-- `record_response_times` up to `fclose(fp)`: what `received.csv` then holds, if it could be opened. -/
def recordReceived (files : Files) (receiveTimes : List Int) : Except Fault (Option Str) :=
  recordLoop 0 (if files.received then some [] else none) receiveTimes

/-- `record_response_times`: with anything recorded, it goes on to read `response_times.csv` character by
    character. The characters, which it prints, are left out. -/
def recordResponseTimes (files : Files) (receiveTimes : List Int) : Except Fault (Option Str) := do
  let fp ← recordReceived files receiveTimes
  if receiveTimes.isEmpty || files.responseTimes then return fp else .error .nullFile

/-- A numeral and its NUL stay inside the buffer. -/
def Fits (millis : Int) : Prop := (Decimal.text millis).length + 1 ≤ intBuf

/-- Eleven digits and a NUL are twelve bytes. -/
theorem fits_iff {millis : Int} (h : 0 ≤ millis) : Fits millis ↔ millis < 10 ^ 11 := by
  unfold Fits intBuf
  rw [Decimal.length_text_of_nonneg h, Nat.add_le_add_iff_right (n := 1) (m := _) (k := 11),
    Decimal.length_digits_le_iff (by decide)]
  omega

/-! ## The loop -/

/-- Any of the faults. -/
def AnyFault : Fault → Prop := fun _ => True

theorem sprintfMillis_returns (millis : Int) :
    Returns (Fits millis) (Decimal.text millis) (sprintfMillis millis) AnyFault := by
  have hsprintf : sprintfMillis millis = if (Decimal.text millis).length + 1 ≤ intBuf
      then Except.ok (Decimal.text millis) else Except.error Fault.overrun := by
    unfold sprintfMillis
    rw [Csv.lit_toString]
  rw [hsprintf]
  unfold Fits
  exact Returns.test trivial

theorem recordTime_returns (file : Str) (millis : Int) :
    Returns (Fits millis) (some (file ++ (Decimal.text millis ++ [Csv.newline]))) (recordTime (some file) millis)
      AnyFault := (sprintfMillis_returns millis).and_then rfl

/-- Without a file, the first `fprintf` is one to NULL. -/
theorem recordTime_none (millis : Int) : ∃ fault, recordTime none millis = .error fault := by
  unfold recordTime
  cases sprintfMillis millis with
  | ok => exact ⟨_, rfl⟩
  | error => exact ⟨_, rfl⟩

/-- The lines of `received.csv`. -/
def receivedLines (times : List Int) : Str :=
  (times.map Decimal.text).flatMap (fun l => l ++ [Csv.newline])

/-- **The loop writes a line for each entry**, as long as the buffer holds it and the index can count it. -/
theorem recordLoop_returns (times : List Int) {i : Nat} (hi : i ≤ intMax) (file : Str) :
    Returns (i + times.length ≤ intMax ∧ ∀ t ∈ times, Fits t) (some (file ++ receivedLines times))
      (recordLoop i (some file) times) AnyFault := by
  induction times generalizing i file with
  | nil => exact Returns.of_ok (by rw [receivedLines, List.map_nil, List.flatMap_nil, List.append_nil]; rfl) ⟨hi, nofun⟩
  | cons t times ih =>
      by_cases hnext : i < intMax
      · have hrest := ih (Nat.succ_le_of_lt hnext) (file ++ (Decimal.text t ++ [Csv.newline]))
        have hloop : recordLoop i (some file) (t :: times)
            = recordTime (some file) t >>= fun fp => recordLoop (i + 1) fp times := by
          simp only [recordLoop, if_pos hnext]
        rw [hloop]
        refine ((recordTime_returns file t).bind hrest).congr ?_ ?_
        · rw [List.length_cons, List.forall_mem_cons, Nat.succ_add, ← Nat.add_succ]
          tauto
        · rw [List.append_assoc]
          rfl
      · -- the index is at `INT_MAX`, and is incremented once more
        have hlong : ¬ i + (t :: times).length ≤ intMax := by
          rw [List.length_cons]
          omega
        refine ⟨fun h => absurd h.1 hlong, fun _ => ?_⟩
        simp only [recordLoop, if_neg hnext]
        cases recordTime (some file) t with
        | ok => exact ⟨_, trivial, rfl⟩
        | error => exact ⟨_, trivial, rfl⟩

/-- `received.csv`, from a file that can be opened. -/
theorem recordReceived_returns {files : Files} (hopen : files.received = true) (times : List Int) :
    Returns (times.length < 2 ^ 31 ∧ ∀ t ∈ times, Fits t) (some (receivedLines times))
      (recordReceived files times) AnyFault := by
  have hloop := recordLoop_returns times (Nat.zero_le intMax) []
  rw [recordReceived, if_pos hopen]
  refine hloop.congr (and_congr_left' ?_) rfl
  unfold intMax
  omega

theorem recordReceived_closed {files : Files} (hopen : files.received = false) {times : List Int} (hne : times ≠ []) :
    ∃ fault, recordReceived files times = .error fault := by
  obtain ⟨t, times, rfl⟩ := List.exists_cons_of_ne_nil hne
  obtain ⟨fault, hfault⟩ := recordTime_none t
  refine ⟨fault, ?_⟩
  rw [recordReceived, hopen]
  simp only [Bool.false_eq_true, if_false, recordLoop, hfault]
  rfl

/-! ## The function -/

/-- **Recording stays inside its buffer exactly for times of at most eleven digits** that the loop can count,
    and then the file is one line for each entry, in order, with the entry as its decimal value. -/
theorem recorded_iff {files : Files} {times : List Int} (h : ∀ t ∈ times, 0 ≤ t) :
    (∃ file, recordReceived files times = .ok (some file) ∧ Csv.readNumbers file = some times)
      ↔ files.received = true ∧ times.length < 2 ^ 31 ∧ ∀ t ∈ times, t < 10 ^ 11 := by
  have hfits : (∀ t ∈ times, Fits t) ↔ ∀ t ∈ times, t < 10 ^ 11 :=
    forall₂_congr (fun t ht => fits_iff (h t ht))
  rw [← hfits]
  constructor
  · rintro ⟨file, hfile, -⟩
    cases hopen : files.received with
    | true => exact ⟨rfl, (recordReceived_returns hopen times).exists_iff.mp ⟨_, hfile⟩⟩
    | false =>
        by_cases hne : times = []
        · subst hne
          rw [recordReceived, hopen] at hfile
          cases hfile
        · obtain ⟨fault, hfault⟩ := recordReceived_closed hopen hne
          rw [hfault] at hfile
          cases hfile
  · rintro ⟨hopen, hcond⟩
    exact ⟨_, (recordReceived_returns hopen times).1 hcond, Csv.readNumbers_lines times⟩

/-- A time in 1970 and one in 2019. -/
theorem recorded_iff_epoch : (∀ t ∈ ([0, 1553866424002] : List Int), 0 ≤ t) ∧
    ((∃ file, recordReceived ⟨true, false⟩ [0, 1553866424002] = .ok (some file) ∧
      Csv.readNumbers file = some [0, 1553866424002]) ↔
    true = true ∧ [0, 1553866424002].length < 2 ^ 31 ∧ ∀ t ∈ ([0, 1553866424002] : List Int), t < 10 ^ 11) :=
  have h : ∀ t ∈ ([0, 1553866424002] : List Int), 0 ≤ t := by decide
  ⟨h, recorded_iff h⟩

/-- The milliseconds since the epoch have thirteen digits since 2001. -/
theorem millis_overflow : ¬ ∃ file, recordReceived ⟨true, false⟩ [1553866424002] = .ok (some file) ∧
    Csv.readNumbers file = some [1553866424002] := by
  rintro ⟨file, hfile, -⟩
  have hfault : recordReceived ⟨true, false⟩ [1553866424002] = .error .overrun := by decide
  rw [hfault] at hfile
  cases hfile

/-- **Recording returns** exactly if `received.csv` gets its lines and `response_times.csv` is there to be
    read. -/
theorem recordResponseTimes_iff {files : Files} {times : List Int} (hne : times ≠ []) :
    (∃ fp, recordResponseTimes files times = .ok fp) ↔
      files.received = true ∧ files.responseTimes = true ∧ times.length < 2 ^ 31 ∧ ∀ t ∈ times, Fits t := by
  have hempty : times.isEmpty = false := List.isEmpty_eq_false_iff.mpr hne
  unfold recordResponseTimes
  rw [hempty, Bool.false_or]
  cases hopen : files.received with
  | false =>
      obtain ⟨fault, hfault⟩ := recordReceived_closed hopen hne
      rw [hfault]
      exact iff_of_false (fun ⟨_, h⟩ => nomatch h) (fun h => nomatch h.1)
  | true =>
      have hreturns := recordReceived_returns hopen times
      cases hthere : files.responseTimes with
      | true =>
          simp only [if_true, bind_pure, hreturns.exists_iff, true_and]
      | false =>
          refine iff_of_false ?_ (fun h => nomatch h.2.1)
          rintro ⟨fp, hfp⟩
          cases hcall : recordReceived files times with
          | ok => rw [hcall] at hfp; cases hfp
          | error => rw [hcall] at hfp; cases hfp

end Client
end AstraeaGateway
