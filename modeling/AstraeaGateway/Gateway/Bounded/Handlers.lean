import AstraeaGateway.Gateway.Bounded.Metrics
import AstraeaGateway.Gateway.Refinement

/-!
# `Gateway.Bounded.Handlers` — the gateway's operations with the source's counters

The handlers of `Gateway.Handlers` with `n_requests`, `release`, `countPops`, `throughput` and the counts of
`second_throughput` as `int`s: an operation that overflows one of them ends with a fault. `exec_spec`: an
operation does what the unbounded one does exactly if its counters fit (`Fits`). So the gateway is a FIFO buffer
exactly as long as they do (`sequential_fifo_iff`).
-/

namespace AstraeaGateway
namespace Gateway
namespace Bounded

open Transition
open Counter (increment increment_of_lt increment_of_not_lt intMax)

structure State where
  metrics   : Metrics
  notDone   : Bool
  nRequests : Int32
  release   : Int32
  myQueue   : List Request
  reads     : Nat
  effects   : List Effect
deriving DecidableEq, Repr

def initial : State := ⟨Metrics.initial, true, 0, 0, [], 0, []⟩

/-- The counters as numbers. -/
def State.unbounded (s : State) : Gateway.State :=
  ⟨s.metrics.unbounded, s.notDone, s.nRequests.toInt, s.release.toInt, s.myQueue, s.reads, s.effects⟩

/-- `myQueue.push(request)` -/
def push (r : Request) (s : State) : State :=
  { s with myQueue := s.myQueue ++ [r], effects := s.effects ++ [.push r] }

/-- `flushToTarget`, with what the MySQL calls do. -/
def flushToTarget (clock : Clock) (outcome : Outcome) (ipClient : Str) (s : State) :
    Except Fault (Str × State) :=
  match queryTarget outcome with
  | .error exit   => .error (.exit exit)
  | .ok response  =>
      .ok (response, push (readEntry response ipClient (clock s.reads)) { s with reads := s.reads + 1 })

/-- `read_request_from_client`. The task started by `std::async` is finished before the handler returns,
    and the handler does not look at its result. -/
def readRequestFromClient (clock : Clock) (request ipClient : Str) (outcome : Outcome) (s : State) :
    Except Fault State := do
  let nRequests ← increment .overflow s.nRequests
  let s := { s with nRequests := nRequests }
  let (_, s) ← flushToTarget clock outcome ipClient s
  let params := [(lit "ip_client", ipClient), (lit "query", request)]
  let s := { s with effects := s.effects ++ [Effect.postJson ⟨writeUrl, params⟩] }
  if s.nRequests.toInt > maxReq ∧ s.notDone then
    let metrics ← recordRequests s.metrics
    return { s with notDone := false, metrics := metrics }
  else return s

/-- `write_request_from_client` -/
def writeRequestFromClient (clock : Clock) (request ipClient : Str) (s : State) : State :=
  let params := [(lit "ip_client", ipClient), (lit "request", request)]
  let s := { s with effects := s.effects ++ [Effect.postJson ⟨writeUrl, params⟩] }
  push (writeEntry request ipClient (clock s.reads)) { s with reads := s.reads + 1 }

/-- One iteration of the loop of `release`: post the response, then `record_time()`. -/
def respond (clock : Clock) (s : State) (r : Request) : Except Fault State := do
  let metrics ← recordTime (clock s.reads) s.metrics
  return { s with metrics := metrics, reads := s.reads + 1,
                  effects := s.effects ++ [.post (answer r), .recordTime] }

/-- `release` -/
def releaseHandler (clock : Clock) (s : State) : Except Fault State := do
  let release ← increment .overflow s.release
  let s := { s with release := release }
  let out ← getRequestsSentToAstraea id clock s.reads s.myQueue
  out.requests.foldlM (respond clock) { s with myQueue := out.myQueue, reads := out.reads }

def exec (clock : Clock) (s : State) : Op → Except Fault State
  | .readRequest request ipClient outcome => readRequestFromClient clock request ipClient outcome s
  | .writeRequest request ipClient        => .ok (writeRequestFromClient clock request ipClient s)
  | .release                              => releaseHandler clock s

/-- The gateway, one operation at a time; it stops when the process ends. -/
def sequential (clock : Clock) : System State Op := ⟨initial, fun s op => (exec clock s op).toOption⟩

/-! ## What fits in the counters -/

/-- The iterations of the loop of `release` fit one by one. -/
def RespondsFit (clock : Clock) : Gateway.State → List Request → Prop
  | _, []      => True
  | s, r :: rs => RecordFits (clock s.reads) s.metrics ∧ RespondsFit clock (Gateway.respond clock s r) rs

/-- **What an operation needs of the state before it**: `n_requests`, `release` and `countPops` can count it,
    `throughput` can count each of its responses, and a file it writes has fewer than 2³¹ lines. -/
def Fits (clock : Clock) (s : Gateway.State) : Op → Prop
  | .readRequest _ _ _ => s.nRequests < intMax ∧
      (s.nRequests + 1 > maxReq ∧ s.notDone = true → s.metrics.secondThroughput.length < 2 ^ 31)
  | .writeRequest _ _  => True
  | .release           => s.release < intMax ∧ s.myQueue.length < 2 ^ 31 ∧
      RespondsFit clock { s with release := s.release + 1, myQueue := [], reads := s.reads + s.myQueue.length }
        s.myQueue

/-! ## Against the handlers without bounds -/

variable {clock : Clock} {s s' : State}

/-- The loop of `release`, response by response. -/
theorem respondAll_cases (clock : Clock) (rs : List Request) (s : State) :
    (RespondsFit clock s.unbounded rs ∧ ∃ s', rs.foldlM (respond clock) s = .ok s' ∧
      rs.foldl (Gateway.respond clock) s.unbounded = s'.unbounded) ∨
    (¬ RespondsFit clock s.unbounded rs ∧ rs.foldlM (respond clock) s = .error .overflow) := by
  induction rs generalizing s with
  | nil => exact Or.inl ⟨trivial, s, rfl, rfl⟩
  | cons r rs ih =>
      have hone : respond clock s r = (recordTime (clock s.reads) s.metrics).bind fun metrics =>
          .ok { s with metrics := metrics, reads := s.reads + 1,
                       effects := s.effects ++ [.post (answer r), .recordTime] } := rfl
      rw [List.foldlM_cons, hone]
      rcases recordTime_spec (clock s.reads) s.metrics with ⟨hfits, m, hm, hval⟩ | ⟨hfits, herr⟩
      · have hnext : Gateway.respond clock s.unbounded r = State.unbounded { s with
            metrics := m, reads := s.reads + 1, effects := s.effects ++ [.post (answer r), .recordTime] } := by
          simp only [Gateway.respond, State.unbounded, hval]
        rw [hm, RespondsFit, List.foldl_cons, hnext]
        rcases ih { s with metrics := m, reads := s.reads + 1,
                           effects := s.effects ++ [.post (answer r), .recordTime] } with
          ⟨hrest, s', hs', hsame⟩ | ⟨hrest, herr⟩
        · exact Or.inl ⟨⟨hfits, hrest⟩, s', hs', hsame⟩
        · exact Or.inr ⟨fun h => hrest h.2, herr⟩
      · rw [herr]
        exact Or.inr ⟨fun h => hfits h.1, rfl⟩

/-- A read request whose result the database stores: the only `int`s are `n_requests` and the index of the recording. -/
theorem readRequest_cases (clock : Clock) (s : State) (request ipClient : Str) (result : ResultSet) :
    (Fits clock s.unbounded (.readRequest request ipClient (.stored result)) ∧ ∃ s',
      exec clock s (.readRequest request ipClient (.stored result)) = .ok s' ∧
      Gateway.exec clock s.unbounded (.readRequest request ipClient (.stored result)) = .ok s'.unbounded) ∨
    (¬ Fits clock s.unbounded (.readRequest request ipClient (.stored result)) ∧
      exec clock s (.readRequest request ipClient (.stored result)) = .error .overflow) := by
  by_cases hcount : s.nRequests.toInt < intMax
  · obtain ⟨n, hn, hval⟩ := increment_of_lt Fault.overflow hcount
    have hlength : s.unbounded.metrics.secondThroughput.length = s.metrics.secondThroughput.length :=
      List.length_map _
    simp only [Fits, exec, readRequestFromClient, flushToTarget, queryTarget, push, hn, bind, Except.bind, pure,
      Except.pure, Gateway.exec, Gateway.readRequestFromClient, Gateway.flushToTarget, Gateway.push, hlength]
    by_cases hmax : n.toInt > maxReq ∧ s.notDone = true
    · have hmax' : s.unbounded.nRequests + 1 > maxReq ∧ s.unbounded.notDone = true :=
        ⟨lt_of_lt_of_eq hmax.1 hval, hmax.2⟩
      rw [if_pos hmax, if_pos hmax']
      rcases recordRequests_cases s.metrics with ⟨hlines, m, hm, hfile, -, -⟩ | ⟨hlines, herr⟩
      · rw [hm]
        refine Or.inl ⟨⟨hcount, fun _ => hlines⟩, _, rfl, ?_⟩
        simp only [State.unbounded, hfile, hval]
      · rw [herr]
        exact Or.inr ⟨fun h => hlines (h.2 hmax'), rfl⟩
    · have hmax' : ¬ (s.unbounded.nRequests + 1 > maxReq ∧ s.unbounded.notDone = true) :=
        fun h => hmax ⟨lt_of_lt_of_eq h.1 hval.symm, h.2⟩
      rw [if_neg hmax, if_neg hmax']
      refine Or.inl ⟨⟨hcount, fun h => absurd h hmax'⟩, _, rfl, ?_⟩
      simp only [State.unbounded, hval]
  · refine Or.inr ⟨fun h => hcount h.1, ?_⟩
    simp only [exec, readRequestFromClient]
    rw [increment_of_not_lt Fault.overflow hcount]
    rfl

/-- The read-out of a fresh queue takes all of it, or cannot count it. -/
theorem release_cases (hsent : ∀ r ∈ s.myQueue, r.isSentToAstraea = true)
    (hfresh : Admitted clock s.unbounded .release) :
    (Fits clock s.unbounded .release ∧ ∃ s', exec clock s .release = .ok s' ∧
      Gateway.exec clock s.unbounded .release = .ok s'.unbounded) ∨
    (¬ Fits clock s.unbounded .release ∧ exec clock s .release = .error .overflow) := by
  have hread : Gateway.readLoop id clock s.myQueue ⟨[], 0, s.reads⟩
      = some ⟨s.myQueue, s.myQueue.length, s.reads + s.myQueue.length⟩ :=
    readLoop_of_fresh (fun r hr => hsent r hr) hfresh
  by_cases hcount : s.release.toInt < intMax
  · obtain ⟨n, hn, hval⟩ := increment_of_lt Fault.overflow hcount
    have hexec : exec clock s .release = (getRequestsSentToAstraea id clock s.reads s.myQueue).bind fun out =>
        out.requests.foldlM (respond clock) { s with release := n, myQueue := out.myQueue, reads := out.reads } := by
      simp only [exec, releaseHandler, hn]
      rfl
    rw [hexec]
    rcases getRequests_spec hread with ⟨hlt, -, hcall⟩ | ⟨hge, hcall⟩
    · -- the queue is taken whole, and the loop goes on from there
      have hrelease := getRequests_of_readLoop hread
      have hstart : State.unbounded { s with release := n, myQueue := [], reads := s.reads + s.myQueue.length }
          = { s.unbounded with release := s.unbounded.release + 1, myQueue := [],
                               reads := s.reads + s.myQueue.length } := by
        simp only [State.unbounded, hval]
      rw [List.drop_length] at hcall hrelease
      have hunbounded : Gateway.exec clock s.unbounded .release = .ok (s.myQueue.foldl (Gateway.respond clock)
          (State.unbounded { s with release := n, myQueue := [], reads := s.reads + s.myQueue.length })) := by
        rw [hstart]
        simp only [Gateway.exec, Gateway.releaseHandler, State.unbounded, hrelease]
      have hfits : Fits clock s.unbounded .release ↔ RespondsFit clock
          (State.unbounded { s with release := n, myQueue := [], reads := s.reads + s.myQueue.length }) s.myQueue := by
        rw [hstart]
        exact ⟨fun h => h.2.2, fun h => ⟨hcount, hlt, h⟩⟩
      rw [hcall, hunbounded, hfits]
      rcases respondAll_cases clock s.myQueue
        { s with release := n, myQueue := [], reads := s.reads + s.myQueue.length } with ⟨hall, s', hs', hsame⟩ | hall
      · exact Or.inl ⟨hall, s', hs', congrArg Except.ok hsame⟩
      · exact Or.inr hall
    · rw [hcall]
      exact Or.inr ⟨fun h => Nat.not_lt.mpr hge h.2.1, rfl⟩
  · refine Or.inr ⟨fun h => hcount h.1, ?_⟩
    simp only [exec, releaseHandler]
    rw [increment_of_not_lt Fault.overflow hcount]
    rfl

/-- **An operation against the one without bounds**: under what operations are promised, it does the same if
    its counters fit, and overflows if they do not. -/
theorem exec_spec {op : Op} (hsent : ∀ r ∈ s.myQueue, r.isSentToAstraea = true)
    (h : Admitted clock s.unbounded op) :
    (Fits clock s.unbounded op ∧ ∃ s', exec clock s op = .ok s' ∧
      Gateway.exec clock s.unbounded op = .ok s'.unbounded) ∨
    (¬ Fits clock s.unbounded op ∧ exec clock s op = .error .overflow) := by
  cases op with
  | readRequest request ipClient outcome =>
      obtain ⟨result, rfl⟩ := h
      exact readRequest_cases clock s request ipClient result
  | writeRequest request ipClient => exact Or.inl ⟨trivial, _, rfl, rfl⟩
  | release => exact release_cases hsent h

/-! ## Runs -/

/-- `Admitted`, seen from the state with the source's counters. -/
def Admits (clock : Clock) (s : State) (op : Op) : Prop := Admitted clock s.unbounded op

/-- The state is that of a FIFO buffer. -/
def Buffered (s : State) : Prop := ∃ b, Refines s.unbounded b

theorem buffered_initial : Buffered initial := ⟨⟨[], []⟩, refines_initial⟩

/-- A step goes on exactly if its counters fit, and the state is a FIFO buffer's again. -/
theorem step_spec {op : Op} (hs : Buffered s) (h : Admits clock s op) :
    ((∃ s', (sequential clock).step s op = some s') ↔ Fits clock s.unbounded op) ∧
    ∀ s', (sequential clock).step s op = some s' →
      Buffered s' ∧ (Gateway.sequential clock).step s.unbounded op = some s'.unbounded := by
  obtain ⟨b, hb⟩ := hs
  have hstep : (sequential clock).step s op = (exec clock s op).toOption := rfl
  rw [hstep]
  rcases exec_spec hb.sent h with ⟨hfits, s', hexec, hsame⟩ | ⟨hfits, hexec⟩
  · rw [hexec]
    refine ⟨iff_of_true ⟨s', rfl⟩ hfits, ?_⟩
    rintro s'' hs''
    obtain rfl := Option.some.inj hs''
    have hunbounded : (Gateway.sequential clock).step s.unbounded op = some s'.unbounded :=
      congrArg Except.toOption hsame
    refine ⟨?_, hunbounded⟩
    obtain ⟨u, k, hu, -, hR⟩ := exec_refines hb h
    obtain rfl := Option.some.inj (hu.symm.trans hunbounded)
    exact ⟨_, hR⟩
  · rw [hexec]
    refine ⟨iff_of_false (fun ⟨_, hs'⟩ => nomatch hs') hfits, fun s' hs' => nomatch hs'⟩

/-- A run is a run without bounds. -/
theorem run_unbounded {ops : List Op} (hs : Buffered s) (h : (sequential clock).Meets (Admits clock) s ops)
    (hrun : (sequential clock).run s ops = some s') :
    (Gateway.sequential clock).Meets (Admitted clock) s.unbounded ops ∧
      (Gateway.sequential clock).run s.unbounded ops = some s'.unbounded := by
  induction ops generalizing s with
  | nil =>
      obtain rfl := Option.some.inj hrun
      exact ⟨trivial, rfl⟩
  | cons op ops ih =>
      obtain ⟨s₁, hstep, hrest⟩ := Option.bind_eq_some_iff.mp hrun
      obtain ⟨hs₁, hunbounded⟩ := (step_spec hs h.1).2 s₁ hstep
      obtain ⟨hmeets, hrun'⟩ := ih hs₁ (h.2 s₁ hstep) hrest
      refine ⟨⟨h.1, fun u hu => ?_⟩, ?_⟩
      · obtain rfl := Option.some.inj (hunbounded.symm.trans hu)
        exact hmeets
      · rw [System.run_cons, hunbounded]
        exact hrun'

/-- **The sequential gateway is a FIFO buffer exactly as long as its counters fit**: for every admitted sequence
    of operations, executed one at a time on a clock that does not go back. -/
theorem sequential_fifo_iff (clock : Clock) (ops : List Op)
    (h : (sequential clock).Meets (Admits clock) initial ops) :
    (∃ s, (sequential clock).run initial ops = some s ∧ FifoRun ops s.unbounded) ↔
      (sequential clock).Meets (fun s => Fits clock s.unbounded) initial ops := by
  have hruns : (∃ s, (sequential clock).run initial ops = some s) ↔
      (sequential clock).Meets (fun s => Fits clock s.unbounded) initial ops := by
    refine System.exists_run_iff_meets (P := Buffered) ?_ buffered_initial h
    intro s op hs hop
    obtain ⟨hiff, hnext⟩ := step_spec hs hop
    exact ⟨hiff, fun s' hs' => (hnext s' hs').1⟩
  rw [← hruns]
  constructor
  · rintro ⟨s, hrun, -⟩
    exact ⟨s, hrun⟩
  · rintro ⟨s, hrun⟩
    obtain ⟨hmeets, hunbounded⟩ := run_unbounded buffered_initial h hrun
    obtain ⟨u, hu, hfifo⟩ := run_fifo clock ops hmeets
    obtain rfl := Option.some.inj (hu.symm.trans hunbounded)
    exact ⟨s, hrun, hfifo⟩

/-- A test for `Admits` on a clock that stands still. -/
def admitsHeld (now : Int) (s : State) : Op → Bool
  | .readRequest _ _ (.stored _) => true
  | .readRequest _ _ _           => false
  | .writeRequest _ _            => true
  | .release                     => s.myQueue.all (fun r => !outdated now r)

theorem admitsHeld_sound (now : Int) (s : State) (op : Op) (h : admitsHeld now s op = true) :
    Admits (Clock.held now) s op := by
  cases op with
  | readRequest request ipClient outcome =>
      cases outcome with
      | stored result => exact ⟨result, rfl⟩
      | _ => cases h
  | writeRequest => trivial
  | release =>
      intro n _ _ r hr
      simpa using List.all_eq_true.mp h r hr

/-- A read and a write, a release, and one more write. -/
def readWriteRelease : List Op :=
  [.readRequest (lit "SELECT 1") (lit "client:6000") (.stored ⟨1, [fun _ => some (lit "1")]⟩),
   .writeRequest (lit "DELETE") (lit "client:6001"), .release,
   .writeRequest (lit "DELETE") (lit "client:6000")]

theorem sequential_fifo_iff_readWriteRelease :
    (sequential (Clock.held 100)).Meets (Admits (Clock.held 100)) initial readWriteRelease ∧
    ((∃ s, (sequential (Clock.held 100)).run initial readWriteRelease = some s ∧
        FifoRun readWriteRelease s.unbounded) ↔
      (sequential (Clock.held 100)).Meets (fun s => Fits (Clock.held 100) s.unbounded) initial
        readWriteRelease) := by
  obtain ⟨s, hs⟩ := Option.isSome_iff_exists.mp (show ((sequential (Clock.held 100)).runWhere
    (admitsHeld 100) initial readWriteRelease).isSome = true by decide)
  have h := (System.meets_of_runWhere (admitsHeld_sound 100) hs).1
  exact ⟨h, sequential_fifo_iff (Clock.held 100) readWriteRelease h⟩

/-- Writes and a release of what they leave, at one time: admitted, but not run to their end if they are too
    many for `countPops`. -/
theorem writes_release (now : Int) (request ipClient : Str) (n : Nat) (s : State)
    (hq : ∀ r ∈ s.myQueue, r.isSentToAstraea = true ∧ outdated now r = false) :
    (sequential (Clock.held now)).Meets (Admits (Clock.held now)) s
      (List.replicate n (.writeRequest request ipClient) ++ [.release]) ∧
    (2 ^ 31 ≤ s.myQueue.length + n → (sequential (Clock.held now)).run s
      (List.replicate n (.writeRequest request ipClient) ++ [.release]) = none) := by
  induction n generalizing s with
  | zero =>
      have hadmits : Admits (Clock.held now) s .release := fun _ _ _ r hr => (hq r hr).2
      refine ⟨⟨hadmits, fun _ _ => trivial⟩, fun hlong => ?_⟩
      rcases release_cases (fun r hr => (hq r hr).1) hadmits with ⟨hfits, -⟩ | ⟨-, herr⟩
      · exact absurd hfits.2.1 (Nat.not_lt.mpr hlong)
      · have hstep : (sequential (Clock.held now)).step s .release = none := congrArg Except.toOption herr
        rw [List.replicate_zero, List.nil_append, System.run_cons, hstep]
        rfl
  | succ n ih =>
      have hstep : (sequential (Clock.held now)).step s (.writeRequest request ipClient)
          = some (writeRequestFromClient (Clock.held now) request ipClient s) := rfl
      have hqueue : (writeRequestFromClient (Clock.held now) request ipClient s).myQueue
          = s.myQueue ++ [writeEntry request ipClient now] := rfl
      obtain ⟨hmeets, hnone⟩ := ih (writeRequestFromClient (Clock.held now) request ipClient s) (by
        intro r hr
        rw [hqueue, List.mem_append, List.mem_singleton] at hr
        rcases hr with hr | rfl
        · exact hq r hr
        · exact ⟨rfl, decide_eq_false (by show ¬ now < now - 5; omega)⟩)
      rw [List.replicate_succ, List.cons_append]
      refine ⟨⟨trivial, fun s' hs' => ?_⟩, fun hlong => ?_⟩
      · obtain rfl := Option.some.inj (hstep.symm.trans hs')
        exact hmeets
      · rw [System.run_cons, hstep]
        refine hnone ?_
        rw [hqueue, List.length_append, List.length_singleton]
        omega

/-- 2³¹ writes and a release. -/
def manyWrites : List Op :=
  List.replicate (2 ^ 31) (.writeRequest (lit "INSERT") (lit "client:6000")) ++ [.release]

/-- The read-out cannot count what it takes. -/
theorem manyWrites_overflow :
    (sequential (Clock.held 100)).Meets (Admits (Clock.held 100)) initial manyWrites ∧
    ¬ ∃ s, (sequential (Clock.held 100)).run initial manyWrites = some s ∧ FifoRun manyWrites s.unbounded := by
  obtain ⟨hmeets, hnone⟩ := writes_release 100 (lit "INSERT") (lit "client:6000") (2 ^ 31) initial
    (fun r hr => absurd hr List.not_mem_nil)
  refine ⟨hmeets, ?_⟩
  rintro ⟨s, hrun, -⟩
  rw [manyWrites, hnone (Nat.le_add_left _ _)] at hrun
  cases hrun

end Bounded
end Gateway
end AstraeaGateway
