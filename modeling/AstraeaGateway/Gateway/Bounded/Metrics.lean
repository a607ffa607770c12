import AstraeaGateway.Gateway.Appending
import AstraeaGateway.Gateway.Bounded.ReadOut
import AstraeaGateway.Gateway.ThroughputFile
import Mathlib.Data.List.Dedup
import Mathlib.Data.List.Perm.Subperm

/-!
# `Gateway.Bounded.Metrics` — `record_time` with `throughput` an `int`

`throughput` and the counts of `second_throughput` are `int`s here, and so is the loop index of
`record_requests`; an overflow is a fault. `recordTime_spec`: a call does what `Gateway.recordTime` does, unless
the pending count or the entries of a file exceed `INT_MAX` (`RecordFits`). `recorded_conserved_iff` says for
which sequences of calls no call is lost.
-/

namespace AstraeaGateway
namespace Gateway
namespace Bounded

open Counter (increment increment_of_lt increment_of_not_lt intMax)

/-- `throughput`, `second_throughput`, and the contents of `./data/throughput.csv`. -/
structure Metrics where
  throughput       : Int32
  secondThroughput : List (UInt32 × Int32)
  throughputCsv    : Str
deriving DecidableEq, Repr

def Metrics.initial : Metrics := ⟨0, [], []⟩

/-- The counts as numbers. -/
def Metrics.unbounded (m : Metrics) : Gateway.Metrics :=
  ⟨m.throughput.toInt, m.secondThroughput.map Gateway.unbounded, m.throughputCsv⟩

/-- `record_requests` -/
def recordRequests (m : Metrics) : Except Fault Metrics :=
  match recordRequestsChecked m.secondThroughput with
  | none      => .error .overflow
  | some file => .ok { m with throughputCsv := file }

/-- `check_timeout`; the sum is an `unsigned int`. -/
def checkTimeout (lastSecond currentSecond : UInt32) (m : Metrics) : Except Fault Metrics :=
  if lastSecond + timeout < currentSecond then recordRequests m else .ok m

/-- `record_time`, with `currentSecond` the value of `std::time(0)`. The numeral of `throughput` that it
    prints into a buffer of its own, which holds every `int` (`sprintfBuf_eq`), is used nowhere. -/
def recordTime (currentSecond : Int) (m : Metrics) : Except Fault Metrics := do
  let m := if m.secondThroughput.isEmpty then
      { m with secondThroughput := m.secondThroughput ++ [(toUnsigned currentSecond, 0)] } else m
  let lastSecond := (m.secondThroughput.getLastD (0, 0)).1
  let m ← checkTimeout lastSecond (toUnsigned currentSecond) m
  let m := if currentSecond ≠ lastSecond.toNat then
      { m with secondThroughput := m.secondThroughput ++ [(toUnsigned currentSecond, m.throughput)],
               throughput := 0 } else m
  let throughput ← increment .overflow m.throughput
  return { m with throughput := throughput }

/-! ## Against `record_time` without bounds -/

/-- What a call of `record_time` needs of the state before it: that it can count itself, and that a file it
    writes has fewer than 2³¹ lines. -/
structure RecordFits (currentSecond : Int) (m : Gateway.Metrics) : Prop where
  pending : (lastSecondOf currentSecond m).toNat = currentSecond → m.throughput < intMax
  lines   : timesOut currentSecond m = true → (Gateway.seeded currentSecond m).secondThroughput.length < 2 ^ 31

/-- `record_requests` on fewer than 2³¹ entries. -/
theorem recordRequests_cases (m : Metrics) :
    (m.secondThroughput.length < 2 ^ 31 ∧ ∃ m', recordRequests m = .ok m' ∧
      m'.unbounded = Gateway.recordRequests m.unbounded ∧ m'.throughput = m.throughput ∧
      m'.secondThroughput = m.secondThroughput) ∨
    (¬ m.secondThroughput.length < 2 ^ 31 ∧ recordRequests m = .error .overflow) := by
  by_cases hlines : m.secondThroughput.length < 2 ^ 31
  · have hfile := recordRequestsChecked_metrics (m := m.unbounded) rfl hlines
    refine Or.inl ⟨hlines, { m with throughputCsv := fileOf m.unbounded }, ?_, rfl, rfl, rfl⟩
    rw [recordRequests, hfile]
    rfl
  · have hnone : recordRequestsChecked m.secondThroughput = none := by
      rw [recordRequestsChecked_eq, if_neg hlines]
    refine Or.inr ⟨hlines, ?_⟩
    rw [recordRequests, hnone]

/-- Only a call behind the timeout writes the file, and only it can overflow. -/
theorem checkTimeout_cases (lastSecond currentSecond : UInt32) (m : Metrics) :
    ((lastSecond + timeout < currentSecond → m.secondThroughput.length < 2 ^ 31) ∧
      ∃ m', checkTimeout lastSecond currentSecond m = .ok m' ∧
        m'.unbounded = Gateway.checkTimeout lastSecond currentSecond m.unbounded ∧
        m'.throughput = m.throughput ∧ m'.secondThroughput = m.secondThroughput) ∨
    (¬ (lastSecond + timeout < currentSecond → m.secondThroughput.length < 2 ^ 31) ∧
      checkTimeout lastSecond currentSecond m = .error .overflow) := by
  unfold checkTimeout Gateway.checkTimeout
  by_cases hlate : lastSecond + timeout < currentSecond
  · simp only [if_pos hlate]
    rcases recordRequests_cases m with ⟨hlines, hm⟩ | ⟨hlines, herr⟩
    · exact Or.inl ⟨fun _ => hlines, hm⟩
    · exact Or.inr ⟨fun h => hlines (h hlate), herr⟩
  · simp only [if_neg hlate]
    exact Or.inl ⟨fun h => absurd h hlate, m, rfl, rfl, rfl, rfl⟩

/-- `record_time` up to its call of `check_timeout`. -/
def seeded (currentSecond : Int) (m : Metrics) : Metrics :=
  if m.secondThroughput.isEmpty then
    { m with secondThroughput := m.secondThroughput ++ [(toUnsigned currentSecond, 0)] } else m

theorem seeded_unbounded (currentSecond : Int) (m : Metrics) :
    (seeded currentSecond m).unbounded = Gateway.seeded currentSecond m.unbounded := by
  obtain ⟨throughput, secondThroughput, throughputCsv⟩ := m
  cases secondThroughput <;> rfl

theorem seeded_throughput (currentSecond : Int) (m : Metrics) :
    (seeded currentSecond m).throughput = m.throughput := by
  unfold seeded
  split <;> rfl

/-- `record_time` behind its call of `check_timeout`. -/
def counted (currentSecond : Int) (lastSecond : UInt32) (m : Metrics) : Except Fault Metrics :=
  let m := if currentSecond ≠ lastSecond.toNat then
      { m with secondThroughput := m.secondThroughput ++ [(toUnsigned currentSecond, m.throughput)],
               throughput := 0 } else m
  (increment .overflow m.throughput).map (fun throughput => { m with throughput := throughput })

/-- Only a call in the second that is pending adds to a count; any other starts from 0. -/
theorem counted_cases (currentSecond : Int) (lastSecond : UInt32) (m : Metrics) :
    ((lastSecond.toNat = currentSecond → m.throughput.toInt < intMax) ∧
      ∃ m', counted currentSecond lastSecond m = .ok m' ∧
        m'.unbounded = Gateway.counted currentSecond lastSecond m.unbounded) ∨
    (¬ (lastSecond.toNat = currentSecond → m.throughput.toInt < intMax) ∧
      counted currentSecond lastSecond m = .error .overflow) := by
  unfold counted Gateway.counted
  by_cases hnow : currentSecond = lastSecond.toNat
  · have hsame : ¬ currentSecond ≠ lastSecond.toNat := not_not_intro hnow
    simp only [if_neg hsame]
    by_cases hlt : m.throughput.toInt < intMax
    · obtain ⟨n, hn, hval⟩ := increment_of_lt Fault.overflow hlt
      refine Or.inl ⟨fun _ => hlt, { m with throughput := n }, ?_, ?_⟩
      · rw [hn]
        rfl
      · rw [Metrics.unbounded, hval]
        rfl
    · refine Or.inr ⟨fun h => hlt (h hnow.symm), ?_⟩
      rw [increment_of_not_lt Fault.overflow hlt]
      rfl
  · simp only [if_pos (show currentSecond ≠ lastSecond.toNat from hnow)]
    refine Or.inl ⟨fun h => absurd h.symm hnow, _, rfl, ?_⟩
    simp only [Metrics.unbounded, List.map_append]
    rfl

/-- The last second of the entries, whatever their counts. -/
theorem lastSecond_unbounded (currentSecond : Int) (m : Metrics) :
    ((seeded currentSecond m).secondThroughput.getLastD (0, 0)).1 = lastSecondOf currentSecond m.unbounded := by
  rw [lastSecondOf, ← seeded_unbounded]
  show _ = (((seeded currentSecond m).secondThroughput.map Gateway.unbounded).getLastD (0, 0)).1
  rw [List.getLastD_eq_getLast?, List.getLastD_eq_getLast?, List.getLast?_map]
  cases (seeded currentSecond m).secondThroughput.getLast? <;> rfl

/-- **A call against the one without bounds.** -/
theorem recordTime_spec (currentSecond : Int) (m : Metrics) :
    (RecordFits currentSecond m.unbounded ∧ ∃ m', recordTime currentSecond m = .ok m' ∧
      m'.unbounded = Gateway.recordTime currentSecond m.unbounded) ∨
    (¬ RecordFits currentSecond m.unbounded ∧ recordTime currentSecond m = .error .overflow) := by
  have hcall : recordTime currentSecond m =
      (checkTimeout (lastSecondOf currentSecond m.unbounded) (toUnsigned currentSecond) (seeded currentSecond m)).bind
        (counted currentSecond (lastSecondOf currentSecond m.unbounded)) := by
    rw [← lastSecond_unbounded]
    rfl
  have hlines : (seeded currentSecond m).secondThroughput.length
      = (Gateway.seeded currentSecond m.unbounded).secondThroughput.length := by
    rw [← seeded_unbounded]
    exact (List.length_map _).symm
  rw [hcall, recordTime_eq]
  rcases checkTimeout_cases (lastSecondOf currentSecond m.unbounded) (toUnsigned currentSecond)
    (seeded currentSecond m) with ⟨hfile, m₁, hm₁, hval₁, hcount₁, -⟩ | ⟨hfile, herr⟩
  · rw [hm₁, Except.bind]
    rcases counted_cases currentSecond (lastSecondOf currentSecond m.unbounded) m₁ with
      ⟨hpending, m₂, hm₂, hval₂⟩ | ⟨hpending, herr⟩
    · rw [hcount₁, seeded_throughput] at hpending
      refine Or.inl ⟨⟨hpending, ?_⟩, m₂, hm₂, ?_⟩
      · intro htimeout
        rw [← hlines]
        exact hfile (of_decide_eq_true htimeout)
      · rw [hval₂, hval₁, seeded_unbounded]
    · rw [hcount₁, seeded_throughput] at hpending
      exact Or.inr ⟨fun h => hpending h.pending, herr⟩
  · refine Or.inr ⟨fun h => hfile ?_, by rw [herr]; rfl⟩
    intro hlate
    rw [hlines]
    exact h.lines (decide_eq_true hlate)

/-! ## A run of calls -/

variable {calls : List Int} {now : Int} {m : Metrics}

/-- The metrics after calls of `record_time` at the seconds `calls`, and nothing else. -/
def recorded (calls : List Int) : Except Fault Metrics :=
  calls.foldlM (fun m currentSecond => recordTime currentSecond m) Metrics.initial

theorem recorded_concat (calls : List Int) (now : Int) :
    recorded (calls ++ [now]) = (recorded calls).bind (recordTime now) := by
  unfold recorded
  rw [List.foldlM_append]
  exact bind_congr (fun m => bind_pure (recordTime now m))

/-- A run that goes on has gone through what came before. -/
theorem recorded_of_concat (h : recorded (calls ++ [now]) = .ok m) :
    ∃ m₀, recorded calls = .ok m₀ ∧ recordTime now m₀ = .ok m := by
  rw [recorded_concat] at h
  cases hcalls : recorded calls with
  | error fault =>
      rw [hcalls] at h
      cases h
  | ok m₀ =>
      rw [hcalls] at h
      exact ⟨m₀, rfl, h⟩

theorem recorded_of_append {calls' : List Int} (h : recorded (calls ++ calls') = .ok m) :
    ∃ m₀, recorded calls = .ok m₀ := by
  induction calls' using List.reverseRecOn generalizing m with
  | nil => exact ⟨m, by rwa [List.append_nil] at h⟩
  | append_singleton calls' now ih =>
      rw [← List.append_assoc] at h
      obtain ⟨m₀, hm₀, -⟩ := recorded_of_concat h
      exact ih hm₀

/-- **A run that returns** is the one without bounds. -/
theorem recorded_unbounded (h : recorded calls = .ok m) : m.unbounded = Gateway.recorded calls := by
  induction calls using List.reverseRecOn generalizing m with
  | nil =>
      obtain rfl := Except.ok.inj h
      rfl
  | append_singleton calls now ih =>
      obtain ⟨m₀, hm₀, hm⟩ := recorded_of_concat h
      rw [Gateway.recorded_concat, ← ih hm₀]
      rcases recordTime_spec now m₀ with ⟨-, m₁, hm₁, hval⟩ | ⟨-, herr⟩
      · obtain rfl := Except.ok.inj (hm.symm.trans hm₁)
        exact hval
      · rw [herr] at hm
        cases hm

/-- **A run returns exactly if each of its calls fits.** -/
theorem recorded_returns_iff : (∃ m, recorded calls = .ok m) ↔
    ∀ pre now post, calls = pre ++ now :: post → RecordFits now (Gateway.recorded pre) := by
  constructor
  · rintro ⟨m, hm⟩ pre now post rfl
    rw [List.append_cons] at hm
    obtain ⟨m₁, hm₁⟩ := recorded_of_append hm
    obtain ⟨m₀, hm₀, hnow⟩ := recorded_of_concat hm₁
    rw [← recorded_unbounded hm₀]
    rcases recordTime_spec now m₀ with ⟨hfits, -⟩ | ⟨-, herr⟩
    · exact hfits
    · rw [herr] at hnow
      cases hnow
  · intro hfits
    induction calls using List.reverseRecOn with
    | nil => exact ⟨Metrics.initial, rfl⟩
    | append_singleton calls now ih =>
        obtain ⟨m₀, hm₀⟩ := ih (fun pre x post hcalls =>
          hfits pre x (post ++ [now]) (by rw [hcalls, List.append_assoc, List.cons_append]))
        have hnow := hfits calls now [] rfl
        rw [← recorded_unbounded hm₀] at hnow
        rcases recordTime_spec now m₀ with ⟨-, m, hm, -⟩ | ⟨hnot, -⟩
        · exact ⟨m, by rw [recorded_concat, hm₀]; exact hm⟩
        · exact absurd hnow hnot

/-! ## What a run leaves, second by second -/

variable {last : Int} {u : Gateway.Metrics}

/-- Entries are only appended. -/
theorem extends_recorded (calls calls' : List Int) :
    Extends (Gateway.recorded calls) (Gateway.recorded (calls ++ calls')) := by
  induction calls' using List.reverseRecOn with
  | nil =>
      rw [List.append_nil]
      exact List.prefix_rfl
  | append_singleton calls' now ih =>
      rw [← List.append_assoc, Gateway.recorded_concat]
      exact ih.trans ((extends_seeded now _).trans (seeded_extends_recordTime now _))

/-- What the next call finds after calls in range: an entry for the second of the last of them. -/
theorem found_of_tallied (h : Tallied (calls ++ [last]) u) (now : Int) : Gateway.seeded now u = u ∧
    ((lastSecondOf now u).toNat : Int) = last ∧ u.throughput = (calls ++ [last]).count last := by
  have hlast := h.last
  rw [List.getLast?_concat] at hlast
  obtain ⟨row, hrow, hsecond⟩ := Option.map_eq_some_iff.mp hlast
  have hseeded : Gateway.seeded now u = u := by
    unfold Gateway.seeded
    cases hrows : u.secondThroughput with
    | nil =>
        rw [hrows] at hrow
        cases hrow
    | cons => rfl
  have hpending := h.pending row hrow
  rw [hsecond] at hpending
  refine ⟨hseeded, ?_, hpending⟩
  rw [lastSecondOf, hseeded, List.getLastD_eq_getLast?, hrow]
  exact hsecond

/-- The seconds of the entries. -/
def seconds (u : Gateway.Metrics) : List Int := u.secondThroughput.map (fun row => (row.1.toNat : Int))

/-- A call finds an entry for its second or opens one, and the entry stays. -/
theorem second_of_call (hmono : calls.Pairwise (· ≤ ·)) (hrange : ∀ c ∈ calls, InRange c) {c : Int} (hc : c ∈ calls) :
    c ∈ seconds (Gateway.recorded calls) := by
  obtain ⟨pre, post, rfl⟩ := List.append_of_mem hc
  have hpre : Tallied (pre ++ [c]) (Gateway.recorded (pre ++ [c])) := by
    rw [List.append_cons] at hmono hrange
    exact recorded_tallied (List.pairwise_append.mp hmono).1
      (fun x hx => hrange x (List.mem_append_left _ hx))
  have hlast := hpre.last
  rw [List.getLast?_concat] at hlast
  obtain ⟨row, hrow, hsecond⟩ := Option.map_eq_some_iff.mp hlast
  rw [List.append_cons]
  exact List.mem_map.mpr ⟨row, (extends_recorded (pre ++ [c]) post).subset (List.mem_of_getLast? hrow), hsecond⟩

/-- No second has two entries. -/
theorem seconds_nodup (h : Tallied calls u) : (seconds u).Nodup := by
  have hincreasing := h.increasing
  rw [List.pairwise_map] at hincreasing
  refine List.pairwise_map.mpr (hincreasing.imp ?_)
  intro row row' hlt heq
  have hlt' := UInt32.lt_iff_toNat_lt.mp hlt
  omega

/-- The entries have the seconds of the calls, each once. -/
theorem length_recorded (hmono : calls.Pairwise (· ≤ ·)) (hrange : ∀ c ∈ calls, InRange c) :
    (Gateway.recorded calls).secondThroughput.length = calls.dedup.length := by
  have htallied := recorded_tallied hmono hrange
  have hperm : (seconds (Gateway.recorded calls)).Perm calls.dedup := by
    refine (List.perm_ext_iff_of_nodup (seconds_nodup htallied) calls.nodup_dedup).mpr (fun c => ?_)
    rw [List.mem_dedup]
    refine ⟨fun hc => ?_, second_of_call hmono hrange⟩
    obtain ⟨row, hrow, rfl⟩ := List.mem_map.mp hc
    exact htallied.labels row hrow
  rw [← hperm.length_eq, seconds, List.length_map]

/-- `check_timeout` on seconds in range. -/
theorem timesOut_iff (hlast : ((lastSecondOf now u).toNat : Int) = last) (hrange : InRange last)
    (hnow : InRange now) : timesOut now u = true ↔ last + 8 < now := by
  have hsum : (lastSecondOf now u + timeout).toNat = (lastSecondOf now u).toNat + 8 := by
    rw [UInt32.toNat_add]
    show ((lastSecondOf now u).toNat + 8) % 2 ^ 32 = _
    have hlt := hrange.2
    omega
  have hunsigned := toNat_toUnsigned hnow
  rw [timesOut, decide_eq_true_eq, UInt32.lt_iff_toNat_lt, hsum]
  omega

/-! ## Conservation -/

/-- **What the counters can count**: no reading is before the epoch, no second has 2³¹ calls, and no file is
    written behind calls in 2³¹ different seconds. -/
structure CanCount (calls : List Int) : Prop where
  epoch  : ∀ c ∈ calls, 0 ≤ c
  second : ∀ c, calls.count c < 2 ^ 31
  lines  : ∀ pre last now post, calls = pre ++ last :: now :: post → last + 8 < now →
    (pre ++ [last]).dedup.length < 2 ^ 31

/-- The calls of a run in range fit one by one. -/
theorem CanCount.fits (h : CanCount calls) (hmono : calls.Pairwise (· ≤ ·)) (hrange : ∀ c ∈ calls, InRange c) :
    ∀ pre now post, calls = pre ++ now :: post → RecordFits now (Gateway.recorded pre) := by
  rintro pre now post rfl
  have hnow : InRange now := hrange now (List.mem_append_right _ List.mem_cons_self)
  have hcount := h.second now
  have hpre : Tallied pre (Gateway.recorded pre) :=
    recorded_tallied (List.pairwise_append.mp hmono).1 (fun c hc => hrange c (List.mem_append_left _ hc))
  rcases List.eq_nil_or_concat' pre with rfl | ⟨pre, last, rfl⟩
  · -- the first call counts from 0, and finds its own second
    have hlast : ((lastSecondOf now (Gateway.recorded [])).toNat : Int) = now := toNat_toUnsigned hnow
    refine ⟨fun _ => by decide, fun htimeout => ?_⟩
    have hlate := (timesOut_iff hlast hnow hnow).mp htimeout
    omega
  · obtain ⟨hseeded, hlast, hpending⟩ := found_of_tallied hpre now
    have hlastRange : InRange last := hrange last (by simp)
    refine ⟨fun hsame => ?_, fun htimeout => ?_⟩
    · have heq : last = now := hlast.symm.trans hsame
      rw [hpending, heq]
      rw [heq, List.count_append, List.count_cons_self] at hcount
      unfold intMax
      omega
    · rw [hseeded, length_recorded (List.pairwise_append.mp hmono).1
        (fun c hc => hrange c (List.mem_append_left _ hc))]
      refine h.lines pre last now post (by simp) ?_
      exact (timesOut_iff hlast hlastRange hnow).mp htimeout

/-- The first call before the epoch opens two entries of one second. -/
theorem epoch_of_conserved (hmono : calls.Pairwise (· ≤ ·)) (h : Conserved calls (Gateway.recorded calls)) :
    ∀ c ∈ calls, 0 ≤ c := by
  cases calls with
  | nil => exact fun c hc => nomatch hc
  | cons start rest =>
      have hstart : 0 ≤ start := by
        by_contra hneg
        have hne : start ≠ (toUnsigned start).toNat := by omega
        have hrows : (Gateway.recorded [start]).secondThroughput = [(toUnsigned start, 0), (toUnsigned start, 0)] := by
          simp [Gateway.recorded, Gateway.recordTime, Gateway.Metrics.initial, hne]
        obtain ⟨more, hmore⟩ := extends_recorded [start] rest
        have hincreasing := h.increasing
        rw [List.singleton_append] at hmore
        rw [← hmore, hrows] at hincreasing
        have hlt := List.rel_of_pairwise_cons hincreasing List.mem_cons_self
        exact absurd hlt (UInt32.lt_irrefl _)
      intro c hc
      rcases List.mem_cons.mp hc with rfl | hc
      · exact hstart
      · exact Int.le_trans hstart (List.rel_of_pairwise_cons hmono hc)

/-- A count that the source holds is one that an `int` holds. -/
theorem count_lt_of_recorded (hmono : calls.Pairwise (· ≤ ·)) (hrange : ∀ c ∈ calls, InRange c)
    (h : recorded calls = .ok m) (c : Int) : calls.count c < 2 ^ 31 := by
  by_cases hmem : c ∈ calls
  · -- after the last call in second `c`, its calls are pending
    obtain ⟨pre, post, rfl, hpost⟩ : ∃ pre post, calls = pre ++ c :: post ∧ c ∉ post := by
      obtain ⟨post, pre, hrev, hpost⟩ := List.eq_append_cons_of_mem (List.mem_reverse.mpr hmem)
      refine ⟨pre.reverse, post.reverse, ?_, fun hc => hpost (List.mem_reverse.mp hc)⟩
      rw [← calls.reverse_reverse, hrev]
      simp
    rw [List.append_cons] at h hmono hrange
    obtain ⟨m₀, hm₀⟩ := recorded_of_append h
    have htallied := recorded_tallied (List.pairwise_append.mp hmono).1
      (fun x hx => hrange x (List.mem_append_left _ hx))
    obtain ⟨-, -, hpending⟩ := found_of_tallied htallied c
    rw [← recorded_unbounded hm₀] at hpending
    have hlt := m₀.throughput.toInt_lt
    rw [List.append_cons, List.count_append, List.count_eq_zero.mpr hpost, Nat.add_zero]
    change m₀.throughput.toInt = _ at hpending
    omega
  · rw [List.count_eq_zero.mpr hmem]
    exact Nat.two_pow_pos 31

/-- **Throughput counting conserves calls exactly while its counters can count**, for every sequence of calls
    of `record_time` at seconds that never go back. -/
theorem recorded_conserved_iff (hmono : calls.Pairwise (· ≤ ·)) (hbelow : ∀ c ∈ calls, c < 2 ^ 32 - 8) :
    (∃ m, recorded calls = .ok m ∧ Conserved calls m.unbounded) ↔ CanCount calls := by
  constructor
  · rintro ⟨m, hm, hconserved⟩
    rw [recorded_unbounded hm] at hconserved
    have hepoch := epoch_of_conserved hmono hconserved
    have hrange : ∀ c ∈ calls, InRange c := fun c hc => ⟨hepoch c hc, hbelow c hc⟩
    refine ⟨hepoch, count_lt_of_recorded hmono hrange hm, ?_⟩
    rintro pre last now post hcalls hlate
    have hfits := recorded_returns_iff.mp ⟨m, hm⟩ (pre ++ [last]) now post (by rw [hcalls]; simp)
    subst hcalls
    have hpre : (pre ++ [last]).Pairwise (· ≤ ·) := by
      rw [List.append_cons] at hmono
      exact (List.pairwise_append.mp hmono).1
    have hpreRange : ∀ c ∈ pre ++ [last], InRange c := by
      intro c hc
      rw [List.append_cons] at hrange
      exact hrange c (List.mem_append_left _ hc)
    obtain ⟨hseeded, hlast, -⟩ := found_of_tallied (recorded_tallied hpre hpreRange) now
    have hlines := hfits.lines ((timesOut_iff hlast (hrange last (by simp)) (hrange now (by simp))).mpr hlate)
    rwa [hseeded, length_recorded hpre hpreRange] at hlines
  · intro h
    have hrange : ∀ c ∈ calls, InRange c := fun c hc => ⟨h.epoch c hc, hbelow c hc⟩
    obtain ⟨m, hm⟩ := recorded_returns_iff.mpr (h.fits hmono hrange)
    refine ⟨m, hm, ?_⟩
    rw [recorded_unbounded hm]
    exact (recorded_tallied hmono hrange).toConserved

theorem recorded_conserved_iff_burst : (burst.Pairwise (· ≤ ·) ∧ ∀ c ∈ burst, c < 2 ^ 32 - 8) ∧
    ((∃ m, recorded burst = .ok m ∧ Conserved burst m.unbounded) ↔ CanCount burst) := by
  have hmono : burst.Pairwise (· ≤ ·) := by decide
  have hbelow : ∀ c ∈ burst, c < 2 ^ 32 - 8 := by decide
  exact ⟨⟨hmono, hbelow⟩, recorded_conserved_iff hmono hbelow⟩

/-- 2³¹ calls in one second. -/
def longBurst : List Int := List.replicate (2 ^ 31) 1553866420

/-- `throughput` cannot count them. -/
theorem throughput_overflows : (longBurst.Pairwise (· ≤ ·) ∧ ∀ c ∈ longBurst, c < 2 ^ 32 - 8) ∧
    ¬ ∃ m, recorded longBurst = .ok m ∧ Conserved longBurst m.unbounded := by
  have hmono : longBurst.Pairwise (· ≤ ·) := List.pairwise_replicate.mpr (Or.inr (Int.le_refl _))
  have hrange : ∀ c ∈ longBurst, InRange c := by
    intro c hc
    rw [List.eq_of_mem_replicate hc]
    exact ⟨by decide, by decide⟩
  refine ⟨⟨hmono, fun c hc => (hrange c hc).2⟩, ?_⟩
  rintro ⟨m, hm, -⟩
  have hlt := count_lt_of_recorded hmono hrange hm 1553866420
  rw [longBurst, List.count_replicate_self] at hlt
  exact Nat.lt_irrefl _ hlt

end Bounded
end Gateway
end AstraeaGateway
