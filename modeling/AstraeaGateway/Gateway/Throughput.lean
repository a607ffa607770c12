import AstraeaGateway.Gateway.Metrics
import Mathlib.Algebra.Ring.Int.Defs
import Mathlib.Data.List.Basic
import Mathlib.Data.List.Induction

/-!
# `Gateway.Throughput` — what `second_throughput` and `throughput` count

A run of `record_time` over the seconds at which it is called. A call either finds its second in the last
entry and adds to the pending count, or opens an entry for its second with the pending count of an earlier
one. `recorded_tallied`: no call is lost and the prefix sums are right, as long as the counts have no bound
(`Gateway.Bounded.Metrics` has the `int`s). `labelsRight_iff`: the counts stand in the wrong rows, one row late.
-/

namespace AstraeaGateway
namespace Gateway

variable {m : Metrics} {calls : List Int} {now : Int}

/-- The metrics after calls of `record_time` at the seconds `calls`, and nothing else. -/
def recorded (calls : List Int) : Metrics :=
  calls.foldl (fun m currentSecond => recordTime currentSecond m) Metrics.initial

theorem recorded_concat (calls : List Int) (now : Int) :
    recorded (calls ++ [now]) = recordTime now (recorded calls) := List.foldl_concat ..

/-- A number of seconds since the epoch up to which no sum in `check_timeout` overflows. -/
def InRange (t : Int) : Prop := 0 ≤ t ∧ t < 2 ^ 32 - 8

theorem toNat_toUnsigned (h : InRange now) : ((toUnsigned now).toNat : Int) = now := by
  obtain ⟨hpos, hlt⟩ := h
  unfold toUnsigned UInt32.ofInt
  rw [UInt32.toNat_ofNat']
  omega

/-! ## One call -/

@[simp] theorem checkTimeout_secondThroughput (lastSecond currentSecond : UInt32) (m : Metrics) :
    (checkTimeout lastSecond currentSecond m).secondThroughput = m.secondThroughput := by
  unfold checkTimeout recordRequests
  split <;> rfl

@[simp] theorem checkTimeout_throughput (lastSecond currentSecond : UInt32) (m : Metrics) :
    (checkTimeout lastSecond currentSecond m).throughput = m.throughput := by
  unfold checkTimeout recordRequests
  split <;> rfl

/-- The second of the last entry. -/
def lastSecond (m : Metrics) : Option Int := m.secondThroughput.getLast?.map (fun row => (row.1.toNat : Int))

/-- A call in the second of the last entry adds to the pending count. -/
theorem recordTime_same (h : lastSecond m = some now) :
    (recordTime now m).secondThroughput = m.secondThroughput ∧
    (recordTime now m).throughput = m.throughput + 1 := by
  obtain ⟨row, hrow, hnow⟩ := Option.map_eq_some_iff.mp h
  have hne : m.secondThroughput.isEmpty = false := by
    cases hm : m.secondThroughput with
    | nil => simp [hm] at hrow
    | cons => rfl
  simp [recordTime, hne, List.getLastD_eq_getLast?, hrow, hnow]

/-- A call in another second opens an entry for it, with the pending count. -/
theorem recordTime_other (hne : m.secondThroughput ≠ []) (h : lastSecond m ≠ some now) :
    (recordTime now m).secondThroughput = m.secondThroughput ++ [(toUnsigned now, m.throughput)] ∧
    (recordTime now m).throughput = 1 := by
  obtain ⟨row, hrow⟩ := Option.isSome_iff_exists.mp (List.getLast?_isSome.mpr hne)
  have hnow : now ≠ row.1.toNat := by
    rintro rfl
    exact h (by rw [lastSecond, hrow, Option.map_some])
  simp [recordTime, hne, List.getLastD_eq_getLast?, hrow, hnow]

/-- The first call opens the first entry, with count 0. -/
theorem recordTime_first (hm : m.secondThroughput = []) (hnow : InRange now) :
    (recordTime now m).secondThroughput = [(toUnsigned now, 0)] ∧
    (recordTime now m).throughput = m.throughput + 1 := by
  simp [recordTime, hm, toNat_toUnsigned hnow]

/-! ## A run of calls -/

/-- The number of calls before a second. -/
def callsBefore (second : Int) (calls : List Int) : Nat := calls.countP (fun c => decide (c < second))

/-- **Conservation of calls.** The seconds of the entries increase; the counts up to an entry are the calls
    before its second; the pending count is the calls in the last second; together they are all calls. -/
structure Conserved (calls : List Int) (m : Metrics) : Prop where
  increasing : (m.secondThroughput.map Prod.fst).Pairwise (· < ·)
  prefixSums : ∀ (k : Nat) (hk : k < m.secondThroughput.length),
    ((m.secondThroughput.take (k + 1)).map Prod.snd).sum
      = callsBefore m.secondThroughput[k].1.toNat calls
  pending : ∀ row ∈ m.secondThroughput.getLast?, m.throughput = calls.count (row.1.toNat : Int)
  total : (m.secondThroughput.map Prod.snd).sum + m.throughput = calls.length

/-- The invariant of a run: with conservation, which seconds the entries have. -/
structure Tallied (calls : List Int) (m : Metrics) : Prop extends Conserved calls m where
  labels : ∀ row ∈ m.secondThroughput, (row.1.toNat : Int) ∈ calls
  last   : lastSecond m = calls.getLast?
  first  : m.secondThroughput.head? = calls.head?.map (fun c => (toUnsigned c, 0))

theorem callsBefore_concat_of_le {second : Int} (h : second ≤ now) (calls : List Int) :
    callsBefore second (calls ++ [now]) = callsBefore second calls := by
  have hnot : ¬ now < second := Int.not_lt.mpr h
  simp [callsBefore, hnot]

theorem callsBefore_of_forall_lt {second : Int} (h : ∀ c ∈ calls, c < second) :
    callsBefore second calls = calls.length :=
  List.countP_eq_length.mpr (fun c hc => decide_eq_true (h c hc))

theorem Tallied.initial : Tallied [] Metrics.initial where
  increasing := List.Pairwise.nil
  prefixSums k hk := absurd hk (Nat.not_lt_zero k)
  pending _ hrow := nomatch hrow
  total := rfl
  labels _ hrow := nomatch hrow
  last := rfl
  first := rfl

/-- A call in the second of the last entry keeps the invariant. -/
theorem Tallied.same {m' : Metrics} (h : Tallied calls m) (hle : ∀ c ∈ calls, c ≤ now)
    (hlast : lastSecond m = some now) (hrows : m'.secondThroughput = m.secondThroughput)
    (hpending : m'.throughput = m.throughput + 1) : Tallied (calls ++ [now]) m' where
  increasing := hrows ▸ h.increasing
  prefixSums k hk := by
    rw [hrows] at hk
    simp only [hrows]
    have hlabel := h.labels _ (List.getElem_mem hk)
    rw [h.prefixSums k hk, callsBefore_concat_of_le (hle _ hlabel)]
  pending row hrow := by
    rw [hrows] at hrow
    have hnow : (row.1.toNat : Int) = now := by
      rw [lastSecond, Option.mem_def.mp hrow] at hlast
      exact Option.some.inj hlast
    rw [hpending, h.pending row hrow, hnow, List.count_append, List.count_singleton_self]
    rfl
  total := by
    rw [hrows, hpending, ← Int.add_assoc, h.total, List.length_append, List.length_singleton]
    rfl
  labels row hrow := List.mem_append_left _ (h.labels row (hrows ▸ hrow))
  last := by
    rw [List.getLast?_concat, ← hlast, lastSecond, lastSecond, hrows]
  first := by
    have hfirst := h.first
    rw [h.last] at hlast
    cases hcalls : calls with
    | nil =>
        rw [hcalls] at hlast
        cases hlast
    | cons c cs =>
        rw [hrows, hfirst, hcalls]
        rfl

/-- A call in a later second opens an entry, and keeps the invariant. -/
theorem Tallied.opens {m' : Metrics} (h : Tallied calls m) (hlt : ∀ c ∈ calls, c < now)
    (hnow : InRange now)
    (hrows : m'.secondThroughput = m.secondThroughput ++ [(toUnsigned now, m.throughput)])
    (hpending : m'.throughput = 1) : Tallied (calls ++ [now]) m' where
  increasing := by
    rw [hrows, List.map_append, List.pairwise_append]
    refine ⟨h.increasing, List.pairwise_singleton .., ?_⟩
    intro a ha b hb
    obtain ⟨row, hrow, rfl⟩ := List.mem_map.mp ha
    obtain rfl := List.mem_singleton.mp hb
    have hlabel := hlt _ (h.labels row hrow)
    rw [← toNat_toUnsigned hnow, Int.ofNat_lt] at hlabel
    exact UInt32.lt_iff_toNat_lt.mpr hlabel
  prefixSums k hk := by
    simp only [hrows] at hk ⊢
    rw [List.length_append, List.length_singleton] at hk
    rcases Nat.lt_or_eq_of_le (Nat.le_of_lt_succ hk) with hk | rfl
    · -- an entry that was there before
      have hlabel := h.labels _ (List.getElem_mem hk)
      rw [List.take_append_of_le_length hk, List.getElem_append_left hk, h.prefixSums k hk,
        callsBefore_concat_of_le (Int.le_of_lt (hlt _ hlabel))]
    · -- the new entry: all earlier calls are before its second
      rw [List.take_of_length_le (by simp), List.getElem_concat_length rfl, toNat_toUnsigned hnow,
        callsBefore_concat_of_le (Int.le_refl now), callsBefore_of_forall_lt hlt, ← h.total]
      simp
  pending row hrow := by
    rw [hrows, List.getLast?_concat, Option.mem_some] at hrow
    have hnone : calls.count now = 0 := List.count_eq_zero.mpr (fun hc => Int.lt_irrefl now (hlt now hc))
    rw [← hrow, hpending, toNat_toUnsigned hnow, List.count_append, List.count_singleton_self, hnone]
    rfl
  total := by
    have htotal := h.total
    rw [hrows, hpending]
    simp
    omega
  labels row hrow := by
    rw [hrows, List.mem_append, List.mem_singleton] at hrow
    rcases hrow with hrow | rfl
    · exact List.mem_append_left _ (h.labels row hrow)
    · rw [toNat_toUnsigned hnow]
      exact List.mem_append_right _ List.mem_cons_self
  last := by
    rw [lastSecond, hrows, List.getLast?_concat, List.getLast?_concat, Option.map_some, toNat_toUnsigned hnow]
  first := by
    have hfirst := h.first
    cases hcalls : calls with
    | nil =>
        have hempty : m.secondThroughput = [] := by
          rw [hcalls] at hfirst
          exact List.head?_eq_none_iff.mp hfirst
        have hzero := h.total
        rw [hempty, hcalls] at hzero
        rw [hrows, hempty]
        simpa using hzero
    | cons c cs =>
        rw [hcalls] at hfirst
        rw [hrows, List.cons_append, List.head?_cons, List.head?_append, hfirst]
        rfl

/-- **One call keeps the invariant.** -/
theorem Tallied.recordTime (h : Tallied calls m) (hmono : (calls ++ [now]).Pairwise (· ≤ ·))
    (hnow : InRange now) : Tallied (calls ++ [now]) (recordTime now m) := by
  rw [List.pairwise_append] at hmono
  obtain ⟨hcalls, -, hle⟩ := hmono
  have hle : ∀ c ∈ calls, c ≤ now := fun c hc => hle c hc now List.mem_cons_self
  by_cases hlast : lastSecond m = some now
  · obtain ⟨hrows, hpending⟩ := recordTime_same hlast
    exact h.same hle hlast hrows hpending
  · by_cases hempty : m.secondThroughput = []
    · -- the first call: there is nothing to count yet
      have hnone : calls = [] := by
        rw [← List.getLast?_eq_none_iff, ← h.last, lastSecond, hempty]
        rfl
      have hzero := h.total
      rw [hempty, hnone] at hzero
      have hzero : m.throughput = 0 := by simpa using hzero
      obtain ⟨hrows, hpending⟩ := recordTime_first hempty hnow
      refine h.opens ?_ hnow ?_ ?_
      · rw [hnone]
        exact fun c hc => nomatch hc
      · rw [hrows, hempty, hzero]
        rfl
      · rw [hpending, hzero]
        rfl
    · obtain ⟨hrows, hpending⟩ := recordTime_other hempty hlast
      refine h.opens ?_ hnow hrows hpending
      -- no call is after the last one, which is not in this second
      intro c hc
      obtain ⟨pre, latest, rfl⟩ : ∃ pre latest, calls = pre ++ [latest] :=
        (List.eq_nil_or_concat' calls).resolve_left (List.ne_nil_of_mem hc)
      have hne : latest ≠ now := by
        rintro rfl
        exact hlast (by rw [h.last, List.getLast?_concat])
      have hlatest := hle latest (List.mem_append_right _ List.mem_cons_self)
      rcases List.mem_append.mp hc with hc | hc
      · have := (List.pairwise_append.mp hcalls).2.2 c hc latest List.mem_cons_self
        omega
      · obtain rfl := List.mem_singleton.mp hc
        omega

theorem recorded_tallied (hmono : calls.Pairwise (· ≤ ·)) (hrange : ∀ c ∈ calls, InRange c) :
    Tallied calls (recorded calls) := by
  induction calls using List.reverseRecOn with
  | nil => exact Tallied.initial
  | append_singleton calls now ih =>
      have hcalls := ih (List.pairwise_append.mp hmono).1 (fun c hc => hrange c (List.mem_append_left _ hc))
      rw [recorded_concat]
      exact hcalls.recordTime hmono (hrange now (List.mem_append_right _ List.mem_cons_self))

/-- A burst, a gap, and a call in the second after. -/
def burst : List Int := [1553866420, 1553866420, 1553866425, 1553866426]

/-! ## Labels -/

/-- After the calls, every entry except for the second of the latest call has the number of calls made in
    its own second. -/
def LabelsRight (calls : List Int) : Prop :=
  ∀ row ∈ (recorded calls).secondThroughput, calls.getLast? ≠ some (row.1.toNat : Int) →
    row.2 = calls.count (row.1.toNat : Int)

/-- A clock that never goes back and ends where it started has stood still. -/
theorem eq_start_of_last {start : Int} {rest : List Int} (hmono : (start :: rest).Pairwise (· ≤ ·))
    (hlast : (start :: rest).getLast? = some start) : ∀ c ∈ start :: rest, c = start := by
  intro c hc
  have hge : start ≤ c := by
    rcases List.mem_cons.mp hc with rfl | hc
    · exact Int.le_refl _
    · exact (List.pairwise_cons.mp hmono).1 c hc
  have hle : c ≤ start := by
    obtain ⟨pre, hpre⟩ := List.getLast?_eq_some_iff.mp hlast
    rw [hpre] at hc hmono
    rcases List.mem_append.mp hc with hc | hc
    · exact (List.pairwise_append.mp hmono).2.2 c hc start List.mem_cons_self
    · exact Int.le_of_eq (List.mem_singleton.mp hc)
  exact Int.le_antisymm hle hge

/-- **The labels are right only as long as there is one label.** An entry is pushed with the second of the
    call that pushes it, but counts the calls before; the first entry counts none. So the property holds
    exactly while all calls have fallen in one second. -/
theorem labelsRight_iff (hmono : calls.Pairwise (· ≤ ·)) (hrange : ∀ c ∈ calls, InRange c) :
    LabelsRight calls ↔ ∀ c ∈ calls, ∀ d ∈ calls, c = d := by
  have h := recorded_tallied hmono hrange
  constructor
  · intro hright
    cases hcalls : calls with
    | nil => exact fun c hc => nomatch hc
    | cons start rest =>
        -- the entry of the first call has count 0
        have hfirst : (recorded calls).secondThroughput.head? = some (toUnsigned start, 0) := by
          rw [h.first, hcalls]
          rfl
        have hstart : ((toUnsigned start).toNat : Int) = start :=
          toNat_toUnsigned (hrange start (hcalls ▸ List.mem_cons_self))
        have hlast : calls.getLast? = some start := by
          by_contra hne
          have hcount := hright _ (List.mem_of_mem_head? hfirst) (hstart.symm ▸ hne)
          rw [hstart, hcalls, List.count_cons_self] at hcount
          have hcount : (0 : Int) = (rest.count start + 1 : Nat) := hcount
          omega
        have hall := eq_start_of_last (hcalls ▸ hmono) (hcalls ▸ hlast)
        intro c hc d hd
        rw [hall c hc, hall d hd]
  · intro hone row hrow hne
    -- every entry has the second of a call, which is that of the latest call
    have hlabel := h.labels row hrow
    obtain ⟨pre, latest, hcalls⟩ := (List.eq_nil_or_concat' calls).resolve_left (List.ne_nil_of_mem hlabel)
    have hlatest : latest ∈ calls := hcalls ▸ List.mem_append_right _ List.mem_cons_self
    rw [hone _ hlabel latest hlatest, hcalls, List.getLast?_concat] at hne
    exact absurd rfl hne

theorem labelsRight_iff_burst : (burst.Pairwise (· ≤ ·) ∧ ∀ c ∈ burst, InRange c) ∧
    (LabelsRight burst ↔ ∀ c ∈ burst, ∀ d ∈ burst, c = d) := by
  have hmono : burst.Pairwise (· ≤ ·) := by decide
  have hrange : ∀ c ∈ burst, InRange c := by unfold InRange; decide
  exact ⟨⟨hmono, hrange⟩, labelsRight_iff hmono hrange⟩

/-- Two calls in one second and one in the next: the file says 0 for the first second and 2 for the next. -/
theorem labels_shifted : ¬ LabelsRight [1553866420, 1553866420, 1553866421] := by
  intro h
  have hrow := h (1553866420, 0) (by decide) (by decide)
  exact absurd hrow (by decide)

end Gateway
end AstraeaGateway
