import AstraeaGateway.Gateway.Recording
import Mathlib.Data.List.Infix

/-!
# `Gateway.Appending` — `throughput.csv` over a whole run

`record_requests` opens the file anew each time, but writes all of `second_throughput`, to which entries are
only ever appended: each file of a run is a prefix of every later one (`writes_extend`). Of its two callers,
the `MAX_REQ` branch fires at one read of the run, the first after `MAX_REQ` others (`maxReq_once`).
-/

namespace AstraeaGateway
namespace Gateway

open Transition

variable {clock : Clock} {s s' : State} {m m' : Metrics}

/-! ## Entries are appended -/

/-- What `record_requests` writes. -/
def fileOf (m : Metrics) : Str := (recordRequests m).throughputCsv

/-- `m'` has the entries of `m`, and maybe more behind them. -/
def Extends (m m' : Metrics) : Prop := m.secondThroughput <+: m'.secondThroughput

theorem Extends.file (h : Extends m m') : fileOf m <+: fileOf m' := by
  obtain ⟨rest, hrest⟩ := h
  show m.secondThroughput.flatMap csvLine <+: m'.secondThroughput.flatMap csvLine
  rw [← hrest, List.flatMap_append]
  exact List.prefix_append ..

theorem extends_seeded (currentSecond : Int) (m : Metrics) : Extends m (seeded currentSecond m) := by
  unfold seeded
  split
  · exact List.prefix_append ..
  · exact List.prefix_rfl

theorem extends_counted (currentSecond : Int) (lastSecond : UInt32) (m : Metrics) :
    Extends m (counted currentSecond lastSecond m) := by
  unfold counted Extends
  dsimp only
  split
  · exact List.prefix_append ..
  · exact List.prefix_rfl

/-- A call of `record_time` appends entries behind what its `check_timeout` can write. -/
theorem seeded_extends_recordTime (currentSecond : Int) (m : Metrics) :
    Extends (seeded currentSecond m) (recordTime currentSecond m) := by
  have h := extends_counted currentSecond (lastSecondOf currentSecond m)
    (checkTimeout (lastSecondOf currentSecond m) (toUnsigned currentSecond) (seeded currentSecond m))
  unfold Extends at h ⊢
  rw [checkTimeout_secondThroughput] at h
  exact h

/-! ## The files of a run -/

/-- The files `ws`, written on the way from metrics `m` to metrics `m'`, each continued by the later ones. -/
structure Growing (m : Metrics) (ws : List Write) (m' : Metrics) : Prop where
  ordered : ws.Pairwise (fun v w => v.csv <+: w.csv)
  after   : ∀ w ∈ ws, fileOf m <+: w.csv
  before  : ∀ w ∈ ws, w.csv <+: fileOf m'
  whole   : fileOf m <+: fileOf m'

theorem Growing.nil (h : Extends m m') : Growing m [] m' := ⟨List.Pairwise.nil, nofun, nofun, h.file⟩

theorem Growing.singleton {w : Write} (hafter : fileOf m <+: w.csv) (hbefore : w.csv <+: fileOf m') :
    Growing m [w] m' where
  ordered := List.pairwise_singleton ..
  after v hv := by
    obtain rfl := List.mem_singleton.mp hv
    exact hafter
  before v hv := by
    obtain rfl := List.mem_singleton.mp hv
    exact hbefore
  whole := hafter.trans hbefore

theorem Growing.append {m₁ m₂ m₃ : Metrics} {ws ws' : List Write} (h : Growing m₁ ws m₂)
    (h' : Growing m₂ ws' m₃) : Growing m₁ (ws ++ ws') m₃ where
  ordered := by
    refine List.pairwise_append.mpr ⟨h.ordered, h'.ordered, ?_⟩
    intro v hv w hw
    exact (h.before v hv).trans (h'.after w hw)
  after w hw := by
    rcases List.mem_append.mp hw with hw | hw
    · exact h.after w hw
    · exact h.whole.trans (h'.after w hw)
  before w hw := by
    rcases List.mem_append.mp hw with hw | hw
    · exact (h.before w hw).trans h'.whole
    · exact h'.before w hw
  whole := h.whole.trans h'.whole

theorem respondWrites_growing (clock : Clock) (rs : List Request) (s : State) :
    Growing s.metrics (respondWrites clock s rs) (rs.foldl (respond clock) s).metrics := by
  induction rs generalizing s with
  | nil => exact Growing.nil List.prefix_rfl
  | cons r rs ih =>
      have hseeded := extends_seeded (clock s.reads) s.metrics
      have hrest := seeded_extends_recordTime (clock s.reads) s.metrics
      have htail := ih (respond clock s r)
      rw [respondWrites, List.foldl_cons]
      split
      case isFalse => exact (Growing.nil (hseeded.trans hrest)).append htail
      case isTrue htimeout =>
          -- `check_timeout` writes before the entry of this call is appended
          have hcsv := recordTime_throughputCsv (clock s.reads) s.metrics
          rw [if_pos htimeout] at hcsv
          have hone : Growing s.metrics [⟨(respond clock s r).metrics.throughputCsv, recordTimes s.effects⟩]
              (respond clock s r).metrics := by
            apply Growing.singleton
            · exact hcsv ▸ hseeded.file
            · exact hcsv ▸ hrest.file
          exact hone.append htail

theorem opWrites_growing {op : Op} (h : exec clock s op = .ok s') :
    Growing s.metrics (opWrites clock s op) s'.metrics := by
  cases op with
  | readRequest request ipClient outcome =>
      simp only [exec, readRequestFromClient, flushToTarget, opWrites] at h ⊢
      cases hquery : queryTarget outcome with
      | error exit =>
          rw [hquery] at h
          cases h
      | ok response =>
          rw [hquery] at h
          dsimp only [push] at h ⊢
          obtain rfl := Except.ok.inj h
          split
          · exact Growing.singleton List.prefix_rfl List.prefix_rfl
          · exact Growing.nil List.prefix_rfl
  | writeRequest request ipClient =>
      obtain rfl := Except.ok.inj h
      exact Growing.nil List.prefix_rfl
  | release =>
      simp only [exec, releaseHandler, opWrites] at h ⊢
      cases hread : getRequestsSentToAstraea id clock s.reads s.myQueue with
      | none =>
          rw [hread] at h
          cases h
      | some out =>
          rw [hread] at h
          obtain rfl := Except.ok.inj h
          exact respondWrites_growing clock out.requests
            { s with release := s.release + 1, myQueue := out.myQueue, reads := out.reads }

/-- An operation that ends the process writes nothing. -/
theorem opWrites_error {op : Op} {exit : Exit} (h : exec clock s op = .error exit) : opWrites clock s op = [] := by
  cases op with
  | readRequest request ipClient outcome =>
      simp only [exec, readRequestFromClient, flushToTarget, opWrites] at h ⊢
      cases hquery : queryTarget outcome with
      | error => rfl
      | ok response =>
          rw [hquery] at h
          cases h
  | writeRequest => rfl
  | release =>
      simp only [exec, releaseHandler, opWrites] at h ⊢
      cases hread : getRequestsSentToAstraea id clock s.reads s.myQueue with
      | none => rfl
      | some out =>
          rw [hread] at h
          cases h

theorem writes_growing (clock : Clock) (ops : List Op) (s : State) :
    ∃ m', Growing s.metrics (writes clock s ops) m' := by
  induction ops generalizing s with
  | nil => exact ⟨s.metrics, Growing.nil List.prefix_rfl⟩
  | cons op ops ih =>
      rw [writes]
      cases hexec : exec clock s op with
      | error exit =>
          rw [opWrites_error hexec]
          exact ⟨s.metrics, Growing.nil List.prefix_rfl⟩
      | ok s' =>
          obtain ⟨m', htail⟩ := ih s'
          exact ⟨m', (opWrites_growing hexec).append htail⟩

/-- **The file is only ever extended**: each file that a run writes, from either place, is a prefix of all
    that it writes later. -/
theorem writes_extend (clock : Clock) (ops : List Op) :
    (writes clock initial ops).Pairwise (fun v w => v.csv <+: w.csv) := by
  obtain ⟨m', hgrowing⟩ := writes_growing clock ops initial
  exact hgrowing.ordered

/-! ## The `MAX_REQ` branch -/

def Op.isRead : Op → Bool
  | .readRequest _ _ _ => true
  | _ => false

/-- The reads of a run are counted, and `not_done` is reset by the first one over `MAX_REQ`. -/
structure Counted (ops : List Op) (s : State) : Prop where
  reads   : s.nRequests = (ops.countP Op.isRead : Int)
  notDone : s.notDone = decide (s.nRequests ≤ maxReq)

theorem respondAll_counts (rs : List Request) (s : State) :
    (rs.foldl (respond clock) s).nRequests = s.nRequests ∧ (rs.foldl (respond clock) s).notDone = s.notDone := by
  induction rs generalizing s with
  | nil => exact ⟨rfl, rfl⟩
  | cons r rs ih => exact ih (respond clock s r)

/-- What a read does to the count, the flag and the metrics. -/
theorem exec_read_counts {request ipClient : Str} {outcome : Outcome}
    (h : exec clock s (.readRequest request ipClient outcome) = .ok s') :
    s'.nRequests = s.nRequests + 1 ∧
    s'.notDone = (s.notDone && decide (s.nRequests + 1 ≤ maxReq)) ∧
    s'.metrics = if s.nRequests + 1 > maxReq ∧ s.notDone then recordRequests s.metrics else s.metrics := by
  simp only [exec, readRequestFromClient, flushToTarget] at h
  cases hquery : queryTarget outcome with
  | error exit =>
      rw [hquery] at h
      cases h
  | ok response =>
      rw [hquery] at h
      dsimp only [push] at h
      obtain rfl := Except.ok.inj h
      split
      case isTrue hmax =>
          have hover : ¬ s.nRequests + 1 ≤ maxReq := Int.not_le.mpr hmax.1
          exact ⟨rfl, by simp [hover], rfl⟩
      case isFalse hmax =>
          refine ⟨rfl, ?_, rfl⟩
          cases hdone : s.notDone with
          | false => rfl
          | true =>
              have hwithin : s.nRequests + 1 ≤ maxReq := Int.not_lt.mp (fun hover => hmax ⟨hover, hdone⟩)
              simp [hwithin]

theorem Counted.exec {ops : List Op} {op : Op} (h : Counted ops s) (hexec : exec clock s op = .ok s') :
    Counted (ops ++ [op]) s' := by
  cases op with
  | readRequest request ipClient outcome =>
      obtain ⟨hreads, hdone, -⟩ := exec_read_counts hexec
      refine ⟨?_, ?_⟩
      · rw [hreads, h.reads, List.countP_append]
        rfl
      · rw [hdone, h.notDone, hreads, ← Bool.decide_and]
        apply decide_eq_decide.mpr
        omega
  | writeRequest request ipClient =>
      obtain rfl := Except.ok.inj hexec
      refine ⟨?_, h.notDone⟩
      rw [List.countP_append]
      exact h.reads
  | release =>
      have hsame : s'.nRequests = s.nRequests ∧ s'.notDone = s.notDone := by
        simp only [Gateway.exec, releaseHandler] at hexec
        cases hread : getRequestsSentToAstraea id clock s.reads s.myQueue with
        | none =>
            rw [hread] at hexec
            cases hexec
        | some out =>
            rw [hread] at hexec
            obtain rfl := Except.ok.inj hexec
            exact respondAll_counts out.requests _
      refine ⟨?_, ?_⟩
      · rw [hsame.1, h.reads, List.countP_append]
        rfl
      · rw [hsame.2, hsame.1, h.notDone]

theorem counted_initial : Counted [] initial := ⟨rfl, by decide⟩

theorem counted_of_path {ops : List Op} (h : (sequential clock).Path System.Any ops s) : Counted ops s := by
  refine System.Path.invariant (P := Counted) counted_initial ?_ h
  intro ops s op s' _ hcounted _ hstep
  exact hcounted.exec (exec_of_step hstep)

/-- **The `MAX_REQ` branch fires once**: in every run, a read writes the file if and only if exactly
    `MAX_REQ` reads came before it. -/
theorem maxReq_once {ops : List Op} {request ipClient : Str} {outcome : Outcome}
    (h : (sequential clock).Path System.Any ops s)
    (hexec : exec clock s (.readRequest request ipClient outcome) = .ok s') :
    s'.metrics = if ops.countP Op.isRead = 90000 then recordRequests s.metrics else s.metrics := by
  obtain ⟨hreads, hdone⟩ := counted_of_path h
  rw [(exec_read_counts hexec).2.2]
  -- once over the bound, the flag lets the branch be taken at the first count over it only
  have hiff : (s.nRequests + 1 > maxReq ∧ s.notDone = true) ↔ ops.countP Op.isRead = 90000 := by
    rw [hdone, decide_eq_true_eq]
    show s.nRequests + 1 > 90000 ∧ s.nRequests ≤ 90000 ↔ _
    omega
  simp only [hiff]

/-- Reads that find no rows all return. -/
theorem exists_run_reads (clock : Clock) (request ipClient : Str) (n : Nat) (s : State) :
    ∃ s', (sequential clock).run s (List.replicate n (.readRequest request ipClient .noRows)) = some s' := by
  induction n generalizing s with
  | zero => exact ⟨s, rfl⟩
  | succ n ih =>
      have hread : ∃ s₁, exec clock s (.readRequest request ipClient .noRows) = .ok s₁ := ⟨_, rfl⟩
      obtain ⟨s₁, hexec⟩ := hread
      have hstep : (sequential clock).step s (.readRequest request ipClient .noRows) = some s₁ :=
        congrArg Except.toOption hexec
      obtain ⟨s', hrun⟩ := ih s₁
      exact ⟨s', by rw [List.replicate_succ, System.run_cons, hstep, Option.bind_some, hrun]⟩

/-- As many reads as `MAX_REQ`. -/
def manyReads : List Op := List.replicate 90000 (.readRequest (lit "SELECT") (lit "a") .noRows)

/-- The next read writes the file. -/
theorem maxReq_once_manyReads : ∃ s s', (sequential (Clock.held 0)).Path System.Any manyReads s ∧
    exec (Clock.held 0) s (.readRequest (lit "SELECT") (lit "a") .noRows) = .ok s' ∧
    s'.metrics = recordRequests s.metrics := by
  obtain ⟨s, hrun⟩ := exists_run_reads (Clock.held 0) (lit "SELECT") (lit "a") 90000 initial
  have hs : (sequential (Clock.held 0)).Path System.Any manyReads s := System.path_of_run hrun
  have hread : ∃ s', exec (Clock.held 0) s (.readRequest (lit "SELECT") (lit "a") .noRows) = .ok s' := ⟨_, rfl⟩
  obtain ⟨s', hexec⟩ := hread
  have hcount : manyReads.countP Op.isRead = 90000 := by
    rw [manyReads, List.countP_replicate]
    rfl
  have hmetrics := maxReq_once hs hexec
  rw [if_pos hcount] at hmetrics
  exact ⟨s, s', hs, hexec, hmetrics⟩

end Gateway
end AstraeaGateway
