import AstraeaGateway.Client.Recording
import Mathlib.Algebra.Ring.Int.Defs
import Mathlib.Data.List.Basic
import Mathlib.Data.List.Forall2
import Mathlib.Data.List.Induction

/-!
# `Client.Response` — the client's latency log

The `/response` handler of `client.cpp` notes the arrival times of the responses in `receive_times`, and
records them when a response comes late. `run.sh` pairs the lines of the record with the send times, so the
log is meant to have one entry for each response that is not late. `oneEach_iff` says for which calls it
does: the first call is noted twice, unless it counts as late against itself, and then its recording must
return.
-/

namespace AstraeaGateway
namespace Client

/-- The clock readings of one call: `ms`, `current_second`, and the reading that only the branch for an empty
    `receive_times` takes. -/
structure Arrival where
  millis : Int
  second : Int
  again  : Int
deriving DecidableEq, Repr

/-- `receive_times`, `last_second` and `received.csv`, with a history: how many calls there were, which of
    them added each entry, and which called `record_response_times`. -/
structure State where
  receiveTimes : List Int
  lastSecond   : UInt32
  receivedCsv  : Str
  calls        : Nat
  owners       : List Nat
  recordings   : List Nat
deriving DecidableEq, Repr

def initial : State := ⟨[], 0, [], 0, [], []⟩

/-- `TIMEOUT` -/
def timeout : UInt32 := 10

/-- The conversion of a `time_t` to `unsigned int`. -/
def toUnsigned (t : Int) : UInt32 := UInt32.ofInt t

/-- `check_timeout`; the sum is an `unsigned int`. -/
def checkTimeout (lastSecond currentSecond : UInt32) : Bool :=
  if lastSecond + timeout > currentSecond then false else true

/-- `receive_times.push_back` -/
def pushBack (time : Int) (s : State) : State :=
  { s with receiveTimes := s.receiveTimes ++ [time], owners := s.owners ++ [s.calls] }

/-- `response`, with the branch for an empty `receive_times` done. -/
def entered (call : Arrival) (s : State) : State :=
  if s.receiveTimes.isEmpty then { pushBack call.again s with lastSecond := toUnsigned call.second } else s

/-- `response`. A fault in the recording ends the process. -/
def response (files : Files) (call : Arrival) (s : State) : Except Fault State := do
  let s := entered call s
  let s ← if checkTimeout s.lastSecond (toUnsigned call.second) then do
      let receivedCsv ← recordResponseTimes files s.receiveTimes
      pure { s with receivedCsv := receivedCsv.getD s.receivedCsv, recordings := s.recordings ++ [s.calls] }
    else pure (pushBack call.millis s)
  return { s with lastSecond := toUnsigned call.second, calls := s.calls + 1 }

/-- The client after calls of the handler, one at a time. -/
def received (files : Files) (calls : List Arrival) : Except Fault State :=
  calls.foldlM (fun s call => response files call s) initial

/-! ## What the log is meant to be -/

/-- A test on the seconds of a call and of the one before it; the first call is tested against itself. -/
def against (test : Int → Int → Bool) (calls : List Arrival) (k : Nat) : Bool :=
  match calls[k - 1]?, calls[k]? with
  | some previous, some call => test previous.second call.second
  | _, _ => false

/-- A call arrives `TIMEOUT` seconds or more after the previous one. -/
def late : List Arrival → Nat → Bool := against (fun previous second => decide (previous + 10 ≤ second))

/-- `check_timeout` says so. -/
def timesOut : List Arrival → Nat → Bool :=
  against (fun previous second => checkTimeout (toUnsigned previous) (toUnsigned second))

/-- The calls that are not late. -/
def onTime (calls : List Arrival) : List Nat := (List.range calls.length).filter (fun k => !late calls k)

/-- An entry is an arrival time of a call: a clock reading taken in it. -/
def ArrivalTime (calls : List Arrival) (time : Int) (k : Nat) : Prop :=
  ∃ call, calls[k]? = some call ∧ (time = call.millis ∨ time = call.again)

/-- **One entry per response**: in call order, one arrival time for each call that is not late; the late
    ones trigger the recording. -/
structure OneEach (calls : List Arrival) (s : State) : Prop where
  owners   : s.owners = onTime calls
  times    : List.Forall₂ (ArrivalTime calls) s.receiveTimes s.owners
  recorded : ∀ k, late calls k = true → k ∈ s.recordings

/-! ## What the log is -/

variable {calls : List Arrival} {call : Arrival} {s : State}

/-- A later call changes no test of an earlier one. -/
theorem against_concat_of_lt (test : Int → Int → Bool) {k : Nat} (hk : k < calls.length) (call : Arrival) :
    against test (calls ++ [call]) k = against test calls k := by
  unfold against
  rw [List.getElem?_append_left hk, List.getElem?_append_left (Nat.lt_of_le_of_lt (Nat.sub_le k 1) hk)]

/-- The test of a later call is against the call before it. -/
theorem against_concat_length (test : Int → Int → Bool) (pre : List Arrival) (previous call : Arrival) :
    against test (pre ++ [previous] ++ [call]) (pre ++ [previous]).length
      = test previous.second call.second := by
  unfold against
  simp

theorem filter_range_concat (p : List Arrival → Nat → Bool) (calls : List Arrival) (call : Arrival)
    (hp : ∀ k < calls.length, p (calls ++ [call]) k = p calls k) :
    (List.range (calls ++ [call]).length).filter (p (calls ++ [call]))
      = (List.range calls.length).filter (p calls)
        ++ if p (calls ++ [call]) calls.length then [calls.length] else [] := by
  rw [List.length_append, List.length_singleton, List.range_succ, List.filter_append,
    List.filter_congr (fun k hk => hp k (List.mem_range.mp hk)), List.filter_singleton]
  cases p (calls ++ [call]) calls.length <;> rfl

theorem ArrivalTime.concat {time : Int} {k : Nat} (h : ArrivalTime calls time k) (call : Arrival) :
    ArrivalTime (calls ++ [call]) time k := by
  obtain ⟨c, hk, htime⟩ := h
  obtain ⟨hlt, -⟩ := List.getElem?_eq_some_iff.mp hk
  exact ⟨c, (List.getElem?_append_left hlt).trans hk, htime⟩

/-- `check_timeout` finds an earlier call late whatever comes after it. -/
theorem timesOut_concat_of_lt {k : Nat} (hk : k < calls.length) (call : Arrival) :
    timesOut (calls ++ [call]) k = timesOut calls k := against_concat_of_lt _ hk call

/-- The calls before `k` that `check_timeout` does not find late. -/
def notedCalls (calls : List Arrival) (k : Nat) : List Nat :=
  (List.range k).filter (fun j => !timesOut calls j)

theorem mem_notedCalls {k j : Nat} : j ∈ notedCalls calls k ↔ j < k ∧ timesOut calls j = false := by
  rw [notedCalls, List.mem_filter, List.mem_range, Bool.not_eq_true']

theorem notedCalls_concat {k : Nat} (hk : k ≤ calls.length) (call : Arrival) :
    notedCalls (calls ++ [call]) k = notedCalls calls k := by
  refine List.filter_congr (fun j hj => ?_)
  rw [timesOut_concat_of_lt (Nat.lt_of_lt_of_le (List.mem_range.mp hj) hk)]

/-- The arrival times that the handler has noted when it comes to call `k`. -/
def Noted (calls : List Arrival) (k : Nat) (time : Int) : Prop :=
  (∃ first, calls[0]? = some first ∧ time = first.again) ∨
    ∃ j ∈ notedCalls calls k, ∃ call, calls[j]? = some call ∧ time = call.millis

theorem noted_concat_iff {k : Nat} {time : Int} (hcalls : calls ≠ []) (hk : k ≤ calls.length) (call : Arrival) :
    Noted (calls ++ [call]) k time ↔ Noted calls k time := by
  have hget : ∀ j, j < calls.length → (calls ++ [call])[j]? = calls[j]? := fun j hj => List.getElem?_append_left hj
  unfold Noted
  rw [notedCalls_concat hk, hget 0 (List.length_pos_iff.mpr hcalls)]
  refine or_congr Iff.rfl (exists_congr (fun j => and_congr_right (fun hj => ?_)))
  rw [hget j (Nat.lt_of_lt_of_le (mem_notedCalls.mp hj).1 hk)]

/-- The invariant once there has been a call: apart from an entry of the first call, the log has an entry for
    each call that did not time out. -/
structure Logged (calls : List Arrival) (s : State) : Prop where
  counted    : s.calls = calls.length
  nonempty   : s.receiveTimes ≠ []
  last       : ∀ call ∈ calls.getLast?, s.lastSecond = toUnsigned call.second
  owners     : s.owners = 0 :: notedCalls calls calls.length
  recordings : s.recordings = (List.range calls.length).filter (timesOut calls)
  times      : List.Forall₂ (ArrivalTime calls) s.receiveTimes s.owners
  entries    : ∀ time, time ∈ s.receiveTimes ↔ Noted calls calls.length time

theorem Logged.length_receiveTimes (h : Logged calls s) :
    s.receiveTimes.length = (notedCalls calls calls.length).length + 1 := by
  rw [h.times.length_eq, h.owners, List.length_cons]

@[simp] theorem entered_calls (call : Arrival) (s : State) : (entered call s).calls = s.calls := by
  unfold entered
  split <;> rfl

@[simp] theorem entered_recordings (call : Arrival) (s : State) : (entered call s).recordings = s.recordings := by
  unfold entered
  split <;> rfl

theorem entered_of_ne (h : s.receiveTimes ≠ []) (call : Arrival) : entered call s = s :=
  if_neg (by rw [List.isEmpty_iff]; exact h)

/-- A call that is found late, and one that is not. -/
theorem response_late {files : Files} (h : checkTimeout (entered call s).lastSecond (toUnsigned call.second) = true) :
    response files call s = (recordResponseTimes files (entered call s).receiveTimes).map fun receivedCsv =>
      { entered call s with
        receivedCsv := receivedCsv.getD (entered call s).receivedCsv, recordings := s.recordings ++ [s.calls],
        lastSecond := toUnsigned call.second, calls := s.calls + 1 } := by
  unfold response
  simp only [h, if_true, entered_calls, entered_recordings]
  cases recordResponseTimes files (entered call s).receiveTimes <;> rfl

theorem response_inTime {files : Files}
    (h : checkTimeout (entered call s).lastSecond (toUnsigned call.second) = false) :
    response files call s = .ok { pushBack call.millis (entered call s) with
      lastSecond := toUnsigned call.second, calls := s.calls + 1 } := by
  unfold response
  simp only [h, Bool.false_eq_true, if_false]
  rw [← entered_calls call s]
  rfl

/-- **A call returns exactly if** it is not found late, or its recording returns. -/
theorem response_iff {files : Files} : (∃ s', response files call s = .ok s') ↔
    (checkTimeout (entered call s).lastSecond (toUnsigned call.second) = true →
      ∃ receivedCsv, recordResponseTimes files (entered call s).receiveTimes = .ok receivedCsv) := by
  cases h : checkTimeout (entered call s).lastSecond (toUnsigned call.second) with
  | false =>
      rw [response_inTime h]
      exact iff_of_true ⟨_, rfl⟩ nofun
  | true =>
      rw [response_late h]
      cases recordResponseTimes files (entered call s).receiveTimes with
      | ok => exact iff_of_true ⟨_, rfl⟩ (fun _ => ⟨_, rfl⟩)
      | error => exact iff_of_false (fun ⟨_, hc⟩ => nomatch hc) (fun hc => nomatch hc rfl)

/-- What a call leaves that returns, up to the file. -/
theorem response_ok {files : Files} {s' : State} (h : response files call s = .ok s') :
    (checkTimeout (entered call s).lastSecond (toUnsigned call.second) = true ∧ ∃ receivedCsv,
      s' = { entered call s with
        receivedCsv := receivedCsv, recordings := s.recordings ++ [s.calls],
        lastSecond := toUnsigned call.second, calls := s.calls + 1 }) ∨
    (checkTimeout (entered call s).lastSecond (toUnsigned call.second) = false ∧
      s' = { pushBack call.millis (entered call s) with
        lastSecond := toUnsigned call.second, calls := s.calls + 1 }) := by
  cases hcheck : checkTimeout (entered call s).lastSecond (toUnsigned call.second) with
  | false =>
      rw [response_inTime hcheck] at h
      exact Or.inr ⟨rfl, (Except.ok.inj h).symm⟩
  | true =>
      rw [response_late hcheck] at h
      cases hcall : recordResponseTimes files (entered call s).receiveTimes with
      | error =>
          rw [hcall] at h
          cases h
      | ok receivedCsv =>
          rw [hcall] at h
          exact Or.inl ⟨rfl, _, (Except.ok.inj h).symm⟩

theorem noted_singleton (call : Arrival) (time : Int) : Noted [call] 0 time ↔ time = call.again := by
  simp [Noted, notedCalls]

theorem Logged.first {files : Files} (h : response files call initial = .ok s) : Logged [call] s := by
  have htest : timesOut [call] 0 = checkTimeout (toUnsigned call.second) (toUnsigned call.second) := rfl
  have hagain : ArrivalTime [call] call.again 0 := ⟨call, rfl, Or.inr rfl⟩
  have hmillis : ArrivalTime [call] call.millis 0 := ⟨call, rfl, Or.inl rfl⟩
  rcases response_ok h with ⟨hcheck, receivedCsv, rfl⟩ | ⟨hcheck, rfl⟩
  · change checkTimeout (toUnsigned call.second) (toUnsigned call.second) = true at hcheck
    rw [hcheck] at htest
    constructor <;> simp [htest, hagain, entered, initial, pushBack, notedCalls, Noted]
  · change checkTimeout (toUnsigned call.second) (toUnsigned call.second) = false at hcheck
    rw [hcheck] at htest
    constructor <;> simp [htest, hagain, hmillis, entered, initial, pushBack, notedCalls, Noted]

/-- `last_second` is the second of the call before. -/
theorem Logged.timesOut_concat (h : Logged calls s) (hcalls : calls ≠ []) (call : Arrival) :
    timesOut (calls ++ [call]) calls.length = checkTimeout s.lastSecond (toUnsigned call.second) := by
  obtain ⟨pre, previous, rfl⟩ := (List.eq_nil_or_concat' calls).resolve_left hcalls
  rw [h.last previous List.getLast?_concat]
  exact against_concat_length _ pre previous call

theorem toUnsigned_last (calls : List Arrival) (call : Arrival) :
    ∀ last ∈ (calls ++ [call]).getLast?, toUnsigned call.second = toUnsigned last.second := by
  intro last hlast
  rw [List.getLast?_concat] at hlast
  rw [Option.mem_some.mp hlast]

/-- One more call that is not found late is one more that is noted. -/
theorem notedCalls_length (calls : List Arrival) (call : Arrival) :
    notedCalls (calls ++ [call]) (calls ++ [call]).length = notedCalls calls calls.length
      ++ if !timesOut (calls ++ [call]) calls.length then [calls.length] else [] :=
  filter_range_concat (fun calls k => !timesOut calls k) calls call
    (fun _ hk => congrArg (! ·) (timesOut_concat_of_lt hk call))

theorem Logged.later {files : Files} {s' : State} (h : Logged calls s) (hcalls : calls ≠ [])
    (hcall : response files call s = .ok s') : Logged (calls ++ [call]) s' := by
  have htimes : List.Forall₂ (ArrivalTime (calls ++ [call])) s.receiveTimes s.owners :=
    h.times.imp (fun time k htime => htime.concat call)
  have howners := notedCalls_length calls call
  have hrecordings := filter_range_concat timesOut calls call (fun _ hk => timesOut_concat_of_lt hk call)
  have hentries : ∀ time, time ∈ s.receiveTimes ↔ Noted (calls ++ [call]) calls.length time := by
    intro time
    rw [h.entries, noted_concat_iff hcalls (Nat.le_refl _)]
  have hlast : (calls ++ [call])[calls.length]? = some call := List.getElem?_concat_length
  rcases response_ok hcall with ⟨hcheck, receivedCsv, rfl⟩ | ⟨hcheck, rfl⟩
  · rw [entered_of_ne h.nonempty] at hcheck ⊢
    rw [h.timesOut_concat hcalls call, hcheck] at howners hrecordings
    refine ⟨?_, h.nonempty, toUnsigned_last calls call, ?_, ?_, htimes, ?_⟩
    · simp [h.counted]
    · rw [howners, h.owners]
      simp
    · rw [hrecordings, h.recordings, h.counted]
      rfl
    · intro time
      rw [hentries, Noted, Noted, howners]
      simp [notedCalls_concat (Nat.le_refl _)]
  · rw [entered_of_ne h.nonempty] at hcheck ⊢
    rw [h.timesOut_concat hcalls call, hcheck] at howners hrecordings
    refine ⟨?_, ?_, toUnsigned_last calls call, ?_, ?_, ?_, ?_⟩
    · simp [h.counted]
    · simp [pushBack]
    · rw [howners, pushBack, h.owners, h.counted]
      rfl
    · rw [hrecordings, pushBack, h.recordings]
      simp
    · refine List.rel_append htimes (List.Forall₂.cons ?_ List.Forall₂.nil)
      exact ⟨call, by rw [h.counted, hlast], Or.inl rfl⟩
    · intro time
      rw [pushBack, List.mem_append, hentries, Noted, Noted, howners, List.mem_singleton]
      simp [notedCalls_concat (Nat.le_refl _), or_and_right, exists_or, or_assoc]

/-! ## When a run returns -/

variable {files : Files}

/-- **What a recording in call `k` needs**: its files can be opened, the index of its loop can count the
    entries, and its buffer holds each of the arrival times noted before. -/
structure Recordable (files : Files) (calls : List Arrival) (k : Nat) : Prop where
  received      : files.received = true
  responseTimes : files.responseTimes = true
  counted       : (notedCalls calls k).length + 1 < 2 ^ 31
  fits          : ∀ time, Noted calls k time → Fits time

theorem recordable_concat_iff {k : Nat} (hcalls : calls ≠ []) (hk : k ≤ calls.length) (call : Arrival) :
    Recordable files (calls ++ [call]) k ↔ Recordable files calls k := by
  have hnoted : ∀ time, Noted (calls ++ [call]) k time ↔ Noted calls k time :=
    fun time => noted_concat_iff hcalls hk call
  have hlength := congrArg List.length (notedCalls_concat hk call)
  constructor
  · rintro ⟨hreceived, hthere, hcounted, hfits⟩
    exact ⟨hreceived, hthere, hlength ▸ hcounted, fun time h => hfits time ((hnoted time).mpr h)⟩
  · rintro ⟨hreceived, hthere, hcounted, hfits⟩
    exact ⟨hreceived, hthere, hlength.symm ▸ hcounted, fun time h => hfits time ((hnoted time).mp h)⟩

theorem recordable_iff {k : Nat} {times : List Int} (hne : times ≠ [])
    (hlength : times.length = (notedCalls calls k).length + 1) (hentries : ∀ t, t ∈ times ↔ Noted calls k t) :
    (∃ receivedCsv, recordResponseTimes files times = .ok receivedCsv) ↔ Recordable files calls k := by
  rw [recordResponseTimes_iff hne, hlength]
  have hfits : (∀ t ∈ times, Fits t) ↔ ∀ t, Noted calls k t → Fits t :=
    forall_congr' (fun t => imp_congr_left (hentries t))
  rw [hfits]
  exact ⟨fun ⟨h₁, h₂, h₃, h₄⟩ => ⟨h₁, h₂, h₃, h₄⟩, fun ⟨h₁, h₂, h₃, h₄⟩ => ⟨h₁, h₂, h₃, h₄⟩⟩

theorem received_concat (files : Files) (calls : List Arrival) (call : Arrival) :
    received files (calls ++ [call]) = (received files calls).bind (response files call) := by
  unfold received
  rw [List.foldlM_append]
  exact bind_congr (fun s => bind_pure (response files call s))

theorem received_of_concat (h : received files (calls ++ [call]) = .ok s) :
    ∃ s₀, received files calls = .ok s₀ ∧ response files call s₀ = .ok s := by
  rw [received_concat] at h
  cases hcalls : received files calls with
  | error fault =>
      rw [hcalls] at h
      cases h
  | ok s₀ =>
      rw [hcalls] at h
      exact ⟨s₀, rfl, h⟩

theorem received_logged (hcalls : calls ≠ []) (h : received files calls = .ok s) : Logged calls s := by
  induction calls using List.reverseRecOn generalizing s with
  | nil => exact absurd rfl hcalls
  | append_singleton calls call ih =>
      obtain ⟨s₀, hs₀, hcall⟩ := received_of_concat h
      by_cases hfirst : calls = []
      · subst hfirst
        obtain rfl := Except.ok.inj hs₀
        exact Logged.first hcall
      · exact (ih hfirst hs₀).later hfirst hcall

/-- The last call of a run returns exactly if it is not found late, or what it records can be recorded. -/
theorem response_last_iff (h : received files calls = .ok s) (call : Arrival) :
    (∃ s', response files call s = .ok s') ↔ (timesOut (calls ++ [call]) calls.length = true →
      Recordable files (calls ++ [call]) calls.length) := by
  rw [response_iff]
  by_cases hcalls : calls = []
  · subst hcalls
    obtain rfl := Except.ok.inj h
    have hentries : ∀ time, time ∈ [call.again] ↔ Noted ([] ++ [call]) 0 time := by
      intro time
      rw [List.nil_append, List.mem_singleton]
      exact (noted_singleton call time).symm
    exact imp_congr Iff.rfl (recordable_iff nofun rfl hentries)
  · have hlog := received_logged hcalls h
    rw [entered_of_ne hlog.nonempty, hlog.timesOut_concat hcalls call,
      recordable_concat_iff hcalls (Nat.le_refl _)]
    exact imp_congr Iff.rfl (recordable_iff hlog.nonempty hlog.length_receiveTimes hlog.entries)

/-- **A run returns exactly if** each call that `check_timeout` finds late can record what was noted before. -/
theorem received_iff : (∃ s, received files calls = .ok s) ↔
    ∀ k < calls.length, timesOut calls k = true → Recordable files calls k := by
  induction calls using List.reverseRecOn with
  | nil => exact iff_of_true ⟨initial, rfl⟩ (fun k hk => absurd hk (Nat.not_lt_zero k))
  | append_singleton calls call ih =>
      have hearlier : ∀ k < calls.length, (timesOut (calls ++ [call]) k = true → Recordable files (calls ++ [call]) k) ↔
          (timesOut calls k = true → Recordable files calls k) := by
        intro k hk
        rw [timesOut_concat_of_lt hk, recordable_concat_iff (by rintro rfl; exact Nat.not_lt_zero k hk)
          (Nat.le_of_lt hk)]
      have hsplit : (∀ k < (calls ++ [call]).length, timesOut (calls ++ [call]) k = true →
            Recordable files (calls ++ [call]) k) ↔
          (∀ k < calls.length, timesOut calls k = true → Recordable files calls k) ∧
          (timesOut (calls ++ [call]) calls.length = true → Recordable files (calls ++ [call]) calls.length) := by
        rw [List.length_append, List.length_singleton, Nat.forall_lt_succ_right]
        exact and_congr_left' (forall₂_congr hearlier)
      rw [hsplit, ← ih]
      constructor
      · rintro ⟨s, hs⟩
        obtain ⟨s₀, hs₀, hcall⟩ := received_of_concat hs
        exact ⟨⟨s₀, hs₀⟩, (response_last_iff hs₀ call).mp ⟨s, hcall⟩⟩
      · rintro ⟨⟨s₀, hs₀⟩, hlast⟩
        obtain ⟨s, hs⟩ := (response_last_iff hs₀ call).mpr hlast
        exact ⟨s, by rw [received_concat, hs₀]; exact hs⟩

/-! ## When it is right -/

theorem late_zero (calls : List Arrival) : late calls 0 = false := by
  unfold late against
  cases calls with
  | nil => rfl
  | cons call calls => exact decide_eq_false (by omega)

theorem lt_length_of_late {k : Nat} (h : late calls k = true) : k < calls.length := by
  unfold late against at h
  split at h
  case h_1 hcall => exact (List.getElem?_eq_some_iff.mp hcall).1
  case h_2 => cases h

theorem oneEach_nil : OneEach [] initial where
  owners := rfl
  times := List.Forall₂.nil
  recorded k hk := absurd (lt_length_of_late hk) (Nat.not_lt_zero k)

/-- The number 0 stands in front of the owners, so with one entry for each call it cannot stand among the
    others as well. -/
theorem Logged.timesOut_zero (h : Logged calls s) (heach : OneEach calls s) : timesOut calls 0 = true := by
  have hnodup : (onTime calls).Nodup := List.nodup_range.filter _
  have hzero : 0 ∈ List.range calls.length := by
    have hmem : 0 ∈ onTime calls := by
      rw [← heach.owners, h.owners]
      exact List.mem_cons_self
    exact (List.mem_filter.mp hmem).1
  rw [← heach.owners, h.owners] at hnodup
  have hnot := (List.nodup_cons.mp hnodup).1
  rw [mem_notedCalls, not_and, Bool.not_eq_false] at hnot
  exact hnot (List.mem_range.mp hzero)

/-- After a run that returns, the log has one entry for each call exactly if `check_timeout` agrees. -/
theorem Logged.each_iff (h : Logged calls s) (hcalls : calls ≠ []) : OneEach calls s ↔
    ∀ k < calls.length, timesOut calls k = (k == 0 || late calls k) := by
  constructor
  · intro heach k hk
    have howners := h.owners.symm.trans heach.owners
    by_cases hzero : k = 0
    · subst hzero
      exact h.timesOut_zero heach
    · have hmem : k ∈ notedCalls calls calls.length ↔ k ∈ onTime calls := by
        rw [← howners, List.mem_cons, or_iff_right hzero]
      unfold onTime notedCalls at hmem
      rw [List.mem_filter, List.mem_filter, and_congr_right_iff] at hmem
      have hiff := hmem (List.mem_range.mpr hk)
      rw [beq_false_of_ne hzero, Bool.false_or]
      cases htimes : timesOut calls k <;> cases hlate : late calls k <;> simp [htimes, hlate] at hiff ⊢
  · intro hagree
    refine ⟨?_, h.times, ?_⟩
    · -- the entry of the first branch stands for the first call, which has no other
      obtain ⟨n, hn⟩ : ∃ n, calls.length = n + 1 :=
        Nat.exists_eq_succ_of_ne_zero (fun hzero => hcalls (List.eq_nil_of_length_eq_zero hzero))
      have hfirst : timesOut calls 0 = true := hagree 0 (by omega)
      rw [h.owners, onTime, notedCalls, hn, List.range_succ_eq_map, List.filter_cons_of_neg (by simp [hfirst]),
        List.filter_cons_of_pos (by simp [late_zero])]
      refine congrArg (0 :: ·) (List.filter_congr (fun k hk => ?_))
      obtain ⟨j, hj, rfl⟩ := List.mem_map.mp hk
      rw [hagree (j + 1) (by rw [List.mem_range] at hj; omega)]
      rfl
    · intro k hlate
      have hk := lt_length_of_late hlate
      rw [h.recordings, List.mem_filter, List.mem_range]
      exact ⟨hk, by rw [hagree k hk, hlate, Bool.or_true]⟩

/-- **The log has one entry for each response exactly if** `check_timeout` succeeds for the first call,
    against its own second, and afterwards for the late calls and no others, and each of these calls can record
    what was noted before. The first call is noted twice otherwise: once because the log is empty, and once as
    every call. -/
theorem oneEach_iff (files : Files) (calls : List Arrival) :
    (∃ s, received files calls = .ok s ∧ OneEach calls s) ↔
      (∀ k < calls.length, timesOut calls k = (k == 0 || late calls k)) ∧
      ∀ k < calls.length, timesOut calls k = true → Recordable files calls k := by
  rw [← received_iff]
  by_cases hcalls : calls = []
  · subst hcalls
    exact iff_of_true ⟨initial, rfl, oneEach_nil⟩ ⟨fun k hk => absurd hk (Nat.not_lt_zero k), initial, rfl⟩
  · constructor
    · rintro ⟨s, hs, heach⟩
      exact ⟨((received_logged hcalls hs).each_iff hcalls).mp heach, s, hs⟩
    · rintro ⟨hagree, s, hs⟩
      exact ⟨s, hs, ((received_logged hcalls hs).each_iff hcalls).mpr hagree⟩

/-- **With a clock that counts from the epoch**, the log is right only before the first call: a first call that
    counts as late against itself comes in a year in which its milliseconds do not fit in the buffer. -/
theorem oneEach_iff_nil (hclock : ∀ call ∈ calls, 0 ≤ call.second ∧ call.second * 1000 ≤ call.again) :
    (∃ s, received files calls = .ok s ∧ OneEach calls s) ↔ calls = [] := by
  constructor
  · rintro ⟨s, hs, heach⟩
    by_contra hcalls
    have htimeout := (received_logged hcalls hs).timesOut_zero heach
    obtain ⟨call, rest, rfl⟩ := List.exists_cons_of_ne_nil hcalls
    obtain ⟨hpos, hmillis⟩ := hclock call List.mem_cons_self
    have hfits : Fits call.again :=
      (received_iff.mp ⟨s, hs⟩ 0 (Nat.succ_pos _) htimeout).fits call.again (Or.inl ⟨call, rfl, rfl⟩)
    have hsmall := (fits_iff (by omega)).mp hfits
    have hnot : timesOut (call :: rest) 0 = false := by
      show checkTimeout (toUnsigned call.second) (toUnsigned call.second) = false
      refine if_pos (UInt32.lt_iff_toNat_lt.mpr ?_)
      rw [UInt32.toNat_add, toUnsigned, UInt32.ofInt, UInt32.toNat_ofNat']
      show _ < (_ + 10) % 2 ^ 32
      omega
    rw [hnot] at htimeout
    cases htimeout
  · rintro rfl
    exact ⟨initial, rfl, oneEach_nil⟩

/-- A single response: two entries. -/
theorem first_noted_twice : ¬ ∃ s, received ⟨true, true⟩ [⟨1553866424002, 1553866424, 1553866424002⟩] = .ok s ∧
    OneEach [⟨1553866424002, 1553866424, 1553866424002⟩] s := by
  rintro ⟨s, hs, heach⟩
  have howners : (received ⟨true, true⟩ [⟨1553866424002, 1553866424, 1553866424002⟩]).map State.owners
      = .ok [0, 0] := by decide
  rw [hs] at howners
  have htwice : s.owners = [0, 0] := Except.ok.inj howners
  rw [heach.owners] at htwice
  exact absurd htwice (by decide)

end Client
end AstraeaGateway
