import AstraeaGateway.Csv
import AstraeaGateway.Gateway.Handlers
import AstraeaGateway.Gateway.Throughput

/-!
# `Gateway.Recording` — what `throughput.csv` accounts for

`record_requests` is called from two places: `check_timeout`, before `record_time` has pushed the pending
count, and the `MAX_REQ` branch of the read handler, which does not look at it. `writes` are all files that
a run writes, `written_accounts_iff` says when the counts in one add up to the calls of `record_time`.
-/

namespace AstraeaGateway
namespace Gateway

open Transition

variable {clock : Clock} {s s' : State} {m : Metrics}

/-! ## The file, read back -/

/-- A line of the file is a pair and a line feed. -/
theorem csvLine_eq (record : UInt32 × Int) :
    csvLine record = Csv.pair (asInt record.1, record.2) ++ [Csv.newline] := by
  unfold csvLine sprintfD Csv.pair
  rw [Csv.lit_toString, Csv.lit_toString]
  simp [lit, Csv.comma, Csv.newline]

/-- **The file holds `second_throughput`**, each second as the `int` that `%d` makes of it. -/
theorem readPairs_recordRequests (m : Metrics) : Csv.readPairs (recordRequests m).throughputCsv
    = some (m.secondThroughput.map (fun record => (asInt record.1, record.2))) := by
  have h := Csv.readPairs_lines (m.secondThroughput.map (fun record => (asInt record.1, record.2)))
  rw [List.map_map, List.flatMap_map] at h
  have hlines : m.secondThroughput.flatMap csvLine = m.secondThroughput.flatMap
      (fun record => (Csv.pair ∘ fun record => (asInt record.1, record.2)) record ++ [Csv.newline]) :=
    congrArg (List.flatMap · m.secondThroughput) (funext csvLine_eq)
  rw [recordRequests, hlines]
  exact h

/-- What the counts in a file add up to. -/
def fileTotal (csv : Str) : Option Int := (Csv.readPairs csv).map (fun rows => (rows.map Prod.snd).sum)

/-- What the counts of all entries add up to. -/
def rowTotal (m : Metrics) : Int := (m.secondThroughput.map Prod.snd).sum

/-- The file accounts for the rows, as they are when it is written. -/
theorem fileTotal_recordRequests (m : Metrics) :
    fileTotal (recordRequests m).throughputCsv = some (rowTotal m) := by
  rw [fileTotal, readPairs_recordRequests, Option.map_some, List.map_map]
  rfl

/-! ## The files that a run writes -/

/-- A file written by `record_requests`, and how many calls of `record_time` had completed by then. -/
structure Write where
  csv       : Str
  completed : Nat
deriving DecidableEq, Repr

/-- `record_time` up to its call of `check_timeout`. -/
def seeded (currentSecond : Int) (m : Metrics) : Metrics :=
  if m.secondThroughput.isEmpty then
    { m with secondThroughput := m.secondThroughput ++ [(toUnsigned currentSecond, 0)] } else m

/-- The `last_second` of a call of `record_time`. -/
def lastSecondOf (currentSecond : Int) (m : Metrics) : UInt32 :=
  ((seeded currentSecond m).secondThroughput.getLastD (0, 0)).1

/-- The call of `check_timeout` in `record_time` calls `record_requests`. -/
def timesOut (currentSecond : Int) (m : Metrics) : Bool :=
  decide (lastSecondOf currentSecond m + timeout < toUnsigned currentSecond)

/-- The files written by the loop of `release`. -/
def respondWrites (clock : Clock) : State → List Request → List Write
  | _, []      => []
  | s, r :: rs =>
      let rest := respondWrites clock (respond clock s r) rs
      if timesOut (clock s.reads) s.metrics then
        ⟨(respond clock s r).metrics.throughputCsv, recordTimes s.effects⟩ :: rest
      else rest

/-- The files written by an operation. -/
def opWrites (clock : Clock) (s : State) : Op → List Write
  | .readRequest _ _ outcome =>
      match queryTarget outcome with
      | .error _ => []
      | .ok _    =>
          if s.nRequests + 1 > maxReq ∧ s.notDone then
            [⟨(recordRequests s.metrics).throughputCsv, recordTimes s.effects⟩]
          else []
  | .writeRequest _ _ => []
  | .release =>
      match getRequestsSentToAstraea id clock s.reads s.myQueue with
      | none     => []
      | some out =>
          respondWrites clock { s with release := s.release + 1, myQueue := out.myQueue, reads := out.reads }
            out.requests

/-- The files written by a run, up to where it ends. -/
def writes (clock : Clock) : State → List Op → List Write
  | _, []        => []
  | s, op :: ops => opWrites clock s op ++
      match exec clock s op with
      | .error _ => []
      | .ok s'   => writes clock s' ops

/-! ## One call of `record_time` -/

@[simp] theorem rowTotal_seeded (currentSecond : Int) (m : Metrics) :
    rowTotal (seeded currentSecond m) = rowTotal m := by
  unfold seeded
  split
  · simp [rowTotal]
  · rfl

@[simp] theorem rowTotal_checkTimeout (lastSecond currentSecond : UInt32) (m : Metrics) :
    rowTotal (checkTimeout lastSecond currentSecond m) = rowTotal m := by
  rw [rowTotal, checkTimeout_secondThroughput, rowTotal]

@[simp] theorem seeded_throughput (currentSecond : Int) (m : Metrics) :
    (seeded currentSecond m).throughput = m.throughput := by
  unfold seeded
  split <;> rfl

@[simp] theorem seeded_throughputCsv (currentSecond : Int) (m : Metrics) :
    (seeded currentSecond m).throughputCsv = m.throughputCsv := by
  unfold seeded
  split <;> rfl

/-- `record_time` behind its call of `check_timeout`. -/
def counted (currentSecond : Int) (lastSecond : UInt32) (m : Metrics) : Metrics :=
  let m := if currentSecond ≠ lastSecond.toNat then
      { m with secondThroughput := m.secondThroughput ++ [(toUnsigned currentSecond, m.throughput)],
               throughput := 0 } else m
  { m with throughput := m.throughput + 1 }

/-- `record_time` in its three parts: the seed, the test of the timeout, the count. -/
theorem recordTime_eq (currentSecond : Int) (m : Metrics) : recordTime currentSecond m =
    counted currentSecond (lastSecondOf currentSecond m)
      (checkTimeout (lastSecondOf currentSecond m) (toUnsigned currentSecond) (seeded currentSecond m)) := rfl

theorem counted_throughputCsv (currentSecond : Int) (lastSecond : UInt32) (m : Metrics) :
    (counted currentSecond lastSecond m).throughputCsv = m.throughputCsv := by
  unfold counted
  dsimp only
  split <;> rfl

/-- What is pending moves into the new entry, and the call itself is pending. -/
theorem counted_spec (currentSecond : Int) (lastSecond : UInt32) (m : Metrics) :
    rowTotal (counted currentSecond lastSecond m) + (counted currentSecond lastSecond m).throughput
      = rowTotal m + m.throughput + 1 ∧
    (0 ≤ m.throughput → 0 < (counted currentSecond lastSecond m).throughput) := by
  unfold counted rowTotal
  dsimp only
  split
  · simp
  · exact ⟨(Int.add_assoc ..).symm, fun h => Int.lt_add_one_of_le h⟩

/-- The file changes only in `check_timeout`, which writes the entries as they are before the call's own. -/
theorem recordTime_throughputCsv (currentSecond : Int) (m : Metrics) :
    (recordTime currentSecond m).throughputCsv =
      if timesOut currentSecond m then (recordRequests (seeded currentSecond m)).throughputCsv
      else m.throughputCsv := by
  rw [recordTime_eq, counted_throughputCsv, checkTimeout, timesOut, ← seeded_throughputCsv currentSecond m]
  simp only [decide_eq_true_eq, apply_ite Metrics.throughputCsv]

/-- One call adds one to the total, and leaves itself pending. -/
theorem recordTime_spec (currentSecond : Int) (m : Metrics) :
    rowTotal (recordTime currentSecond m) + (recordTime currentSecond m).throughput
      = rowTotal m + m.throughput + 1 ∧
    (0 ≤ m.throughput → 0 < (recordTime currentSecond m).throughput) := by
  have h := counted_spec currentSecond (lastSecondOf currentSecond m)
    (checkTimeout (lastSecondOf currentSecond m) (toUnsigned currentSecond) (seeded currentSecond m))
  rw [rowTotal_checkTimeout, checkTimeout_throughput, rowTotal_seeded, seeded_throughput] at h
  exact h

/-! ## The invariant -/

/-- All completed calls are counted, in the entries or pending; and once there are any, some are pending. -/
structure Balanced (completed : Nat) (m : Metrics) : Prop where
  total   : rowTotal m + m.throughput = completed
  nonneg  : 0 ≤ m.throughput
  pending : m.throughput = 0 ↔ completed = 0

theorem Balanced.initial : Balanced 0 Metrics.initial := ⟨rfl, Int.le_refl 0, by decide⟩

/-- One call is one more, in a row or pending. -/
theorem Balanced.recordTime {completed : Nat} (h : Balanced completed m) (currentSecond : Int) :
    Balanced (completed + 1) (recordTime currentSecond m) := by
  obtain ⟨htotal, hpos⟩ := recordTime_spec currentSecond m
  have hpos := hpos h.nonneg
  refine ⟨?_, Int.le_of_lt hpos, ?_⟩
  · rw [htotal, h.total]
    rfl
  · omega

theorem Balanced.seeded {completed : Nat} (h : Balanced completed m) (currentSecond : Int) :
    Balanced completed (seeded currentSecond m) where
  total := by rw [rowTotal_seeded, seeded_throughput, h.total]
  nonneg := by rw [seeded_throughput]; exact h.nonneg
  pending := by rw [seeded_throughput]; exact h.pending

/-- **A file lacks what is pending**, and so accounts for all calls only if there have been none. -/
theorem Balanced.recordRequests_iff {completed : Nat} (h : Balanced completed m) :
    fileTotal (recordRequests m).throughputCsv = some (completed : Int) ↔ completed = 0 := by
  have htotal := h.total
  rw [fileTotal_recordRequests, Option.some.injEq, ← h.pending]
  omega

/-! ## Runs -/

/-- The counts in the file add up to the calls completed when it is written. -/
def Write.Accounts (w : Write) : Prop := fileTotal w.csv = some (w.completed : Int)

/-- Files that account for all calls exactly if there have been none. -/
def LackPending (ws : List Write) : Prop := ∀ w ∈ ws, (w.Accounts ↔ w.completed = 0)

theorem LackPending.nil : LackPending [] := fun _ hw => nomatch hw

def StateBalanced (s : State) : Prop := Balanced (recordTimes s.effects) s.metrics

/-- One response is one call. -/
theorem StateBalanced.respond (clock : Clock) (h : StateBalanced s) (r : Request) :
    StateBalanced (respond clock s r) := by
  have heffects : recordTimes (Gateway.respond clock s r).effects = recordTimes s.effects + 1 :=
    List.count_append
  unfold StateBalanced
  rw [heffects]
  exact Balanced.recordTime h _

theorem respondWrites_spec (clock : Clock) (rs : List Request) (h : StateBalanced s) :
    StateBalanced (rs.foldl (respond clock) s) ∧ LackPending (respondWrites clock s rs) := by
  induction rs generalizing s with
  | nil => exact ⟨h, LackPending.nil⟩
  | cons r rs ih =>
      obtain ⟨hstate, hrest⟩ := ih (h.respond clock r)
      refine ⟨hstate, ?_⟩
      rw [respondWrites]
      split
      case isFalse => exact hrest
      case isTrue htimeout =>
          intro w hw
          rcases List.mem_cons.mp hw with rfl | hw
          · -- the file written by `check_timeout`
            have hcsv := recordTime_throughputCsv (clock s.reads) s.metrics
            rw [if_pos htimeout] at hcsv
            unfold Write.Accounts
            rw [show (Gateway.respond clock s r).metrics.throughputCsv = _ from hcsv]
            exact (Balanced.seeded h _).recordRequests_iff
          · exact hrest w hw

/-- The balance is about the entries, the pending count and the completed calls alone. -/
theorem StateBalanced.congr (h : StateBalanced s) (hcalls : recordTimes s'.effects = recordTimes s.effects)
    (hrows : s'.metrics.secondThroughput = s.metrics.secondThroughput)
    (hpending : s'.metrics.throughput = s.metrics.throughput) : StateBalanced s' := by
  unfold StateBalanced
  rw [hcalls]
  refine ⟨?_, hpending ▸ h.nonneg, hpending ▸ h.pending⟩
  rw [rowTotal, hrows, hpending]
  exact h.total

/-- **One operation** writes only files that lack what is pending, and keeps the balance if it goes
    through. -/
theorem exec_balanced (clock : Clock) (h : StateBalanced s) (op : Op) : LackPending (opWrites clock s op) ∧
    ∀ s', exec clock s op = .ok s' → StateBalanced s' := by
  cases op with
  | readRequest request ipClient outcome =>
      simp only [opWrites, exec, readRequestFromClient, flushToTarget]
      cases queryTarget outcome with
      | error exit =>
          refine ⟨LackPending.nil, ?_⟩
          intro s' hexec
          cases hexec
      | ok response =>
          dsimp only [push]
          split
          · -- the `MAX_REQ` branch writes the file, and changes nothing that is counted
            refine ⟨?_, ?_⟩
            · intro w hw
              obtain rfl := List.mem_singleton.mp hw
              exact Balanced.recordRequests_iff h
            · intro s' hexec
              obtain rfl := Except.ok.inj hexec
              exact h.congr (by simp [recordTimes]) rfl rfl
          · refine ⟨LackPending.nil, ?_⟩
            intro s' hexec
            obtain rfl := Except.ok.inj hexec
            exact h.congr (by simp [recordTimes]) rfl rfl
  | writeRequest request ipClient =>
      refine ⟨LackPending.nil, ?_⟩
      intro s' hexec
      obtain rfl := Except.ok.inj hexec
      exact h.congr (by simp [recordTimes, writeRequestFromClient, push]) rfl rfl
  | release =>
      simp only [opWrites, exec, releaseHandler]
      cases getRequestsSentToAstraea id clock s.reads s.myQueue with
      | none =>
          refine ⟨LackPending.nil, ?_⟩
          intro s' hexec
          cases hexec
      | some out =>
          have hstart : StateBalanced
              { s with release := s.release + 1, myQueue := out.myQueue, reads := out.reads } := h
          obtain ⟨hstate, hwrites⟩ := respondWrites_spec clock out.requests hstart
          refine ⟨hwrites, ?_⟩
          intro s' hexec
          obtain rfl := Except.ok.inj hexec
          exact hstate

/-- **The throughput file accounts for every response only while there is none**: each file written in a
    run, from either place, adds up to the number of completed calls of `record_time` if and only if no call
    has completed before it is written. -/
theorem written_accounts_iff (clock : Clock) (ops : List Op) :
    ∀ w ∈ writes clock initial ops, (w.Accounts ↔ w.completed = 0) := by
  suffices hrun : ∀ s, StateBalanced s → LackPending (writes clock s ops) from hrun initial Balanced.initial
  induction ops with
  | nil => exact fun s _ => LackPending.nil
  | cons op ops ih =>
      intro s hs w hw
      obtain ⟨hwrites, hnext⟩ := exec_balanced clock hs op
      rw [writes, List.mem_append] at hw
      rcases hw with hw | hw
      · exact hwrites w hw
      · cases hexec : exec clock s op with
        | error exit =>
            rw [hexec] at hw
            exact nomatch hw
        | ok s' =>
            rw [hexec] at hw
            exact ih s' (hnext s' hexec) w hw

/-! ## The history is the file's -/

/-- The contents of the file after writes. -/
def lastFile (csv : Str) (ws : List Write) : Str := ws.foldl (fun _ w => w.csv) csv

theorem respondWrites_file (clock : Clock) (rs : List Request) (s : State) :
    (rs.foldl (respond clock) s).metrics.throughputCsv
      = lastFile s.metrics.throughputCsv (respondWrites clock s rs) := by
  induction rs generalizing s with
  | nil => rfl
  | cons r rs ih =>
      rw [List.foldl_cons, ih, respondWrites]
      split
      case isTrue => rfl
      case isFalse htimeout =>
          have hcsv := recordTime_throughputCsv (clock s.reads) s.metrics
          rw [if_neg htimeout] at hcsv
          rw [show (respond clock s r).metrics.throughputCsv = _ from hcsv]

/-- The file is that of the last write, if there is one. -/
theorem exec_file {op : Op} (h : exec clock s op = .ok s') :
    s'.metrics.throughputCsv = lastFile s.metrics.throughputCsv (opWrites clock s op) := by
  cases op with
  | readRequest request ipClient outcome =>
      simp only [exec, readRequestFromClient, flushToTarget, opWrites] at h ⊢
      cases hquery : queryTarget outcome with
      | error exit =>
          rw [hquery] at h
          cases h
      | ok response =>
          rw [hquery] at h
          dsimp only [push] at h ⊢
          obtain rfl := Except.ok.inj h
          split <;> rfl
  | writeRequest request ipClient =>
      obtain rfl := Except.ok.inj h
      rfl
  | release =>
      simp only [exec, releaseHandler, opWrites] at h ⊢
      cases hread : getRequestsSentToAstraea id clock s.reads s.myQueue with
      | none =>
          rw [hread] at h
          cases h
      | some out =>
          rw [hread] at h
          obtain rfl := Except.ok.inj h
          exact respondWrites_file clock out.requests _

/-- **After a run, the file holds the last of its writes.** -/
theorem run_file {ops : List Op} (h : (sequential clock).run s ops = some s') :
    s'.metrics.throughputCsv = lastFile s.metrics.throughputCsv (writes clock s ops) := by
  induction ops generalizing s with
  | nil =>
      obtain rfl := Option.some.inj h
      rfl
  | cons op ops ih =>
      rw [System.run_cons] at h
      obtain ⟨s₁, hstep, hrun⟩ := Option.bind_eq_some_iff.mp h
      have hexec : exec clock s op = .ok s₁ := by
        cases hexec : exec clock s op with
        | error exit =>
            rw [show (sequential clock).step s op = none from congrArg Except.toOption hexec] at hstep
            cases hstep
        | ok s₂ =>
            rw [show (sequential clock).step s op = some s₂ from congrArg Except.toOption hexec] at hstep
            rw [Option.some.inj hstep]
      rw [ih hrun, exec_file hexec, writes, hexec, lastFile, lastFile, lastFile, List.foldl_append]

/-- A clock that is ten seconds later from its fourth reading on. -/
def pausing : Clock where
  reading t := if t < 3 then 1553866420 else 1553866430
  mono i j hij := by
    split <;> split <;> omega

/-- A response, a pause, and another response. -/
def afterPause : List Op :=
  [.writeRequest (lit "a") (lit "client:6000"), .release, .writeRequest (lit "b") (lit "client:6000"), .release]

/-- The file that the second response writes. -/
def secondWrite : Write := ⟨lit "1553866420,0\n", 1⟩

theorem written_accounts_iff_afterPause : secondWrite ∈ writes pausing initial afterPause ∧
    (secondWrite.Accounts ↔ secondWrite.completed = 0) := by
  have hwritten : secondWrite ∈ writes pausing initial afterPause := by decide +kernel
  exact ⟨hwritten, written_accounts_iff pausing afterPause secondWrite hwritten⟩

/-- It lacks the first response. -/
theorem written_lacks_pending : (∀ t, InRange (pausing t)) ∧
    (∃ s, (sequential pausing).run initial afterPause = some s) ∧
    ¬ ∀ w ∈ writes pausing initial afterPause, w.Accounts := by
  refine ⟨?_, ?_, ?_⟩
  · intro t
    show InRange (if t < 3 then 1553866420 else 1553866430)
    unfold InRange
    split <;> decide
  · exact Option.isSome_iff_exists.mp (by decide +kernel)
  · intro h
    have hw := h secondWrite (by decide +kernel)
    unfold Write.Accounts at hw
    exact absurd hw (by decide +kernel)

end Gateway
end AstraeaGateway
