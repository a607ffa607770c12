import AstraeaGateway.Gateway.Refinement
import AstraeaGateway.Protocol.Snapshot

/-!
# `Protocol.Sequential` — the handlers one at a time are a schedule of the protocol

`Gateway.sequential` runs whole handlers; `Protocol.system` interleaves their steps. Here each operation of
the first is a stretch of steps of the second: nobody else moves in between, the release handles one queue,
and every response is delivered as soon as it is posted. So what is proved of every interleaving holds of
the handlers as functions, and an operation that ends the process is a schedule that ends it likewise.
-/

namespace AstraeaGateway
namespace Protocol

open Transition Gateway

variable {clock : Clock} {s s' : Gateway.State} {S : State}

/-! ## The loop of the read-out on renamed entries and a later clock -/

/-- What the loop has so far, with its entries renamed and `m` clock readings taken before it. -/
def liftReadOut {α β : Type} (f : α → β) (m : Nat) (out : ReadOut α) : ReadOut β :=
  ⟨out.requests.map f, out.countPops, m + out.reads⟩

/-- The loop sees an entry only through its `struct request`, and the clock from its first reading on. -/
theorem readLoop_lift {α β : Type} (f : α → β) (req : β → Request) (clock : Clock) (m : Nat) :
    ∀ (q : List α) (out : ReadOut α), readLoop req clock (q.map f) (liftReadOut f m out)
      = (readLoop (fun x => req (f x)) (clock.after m) q out).map (liftReadOut f m)
  | [], out => rfl
  | front :: q, out => by
      cases hout : outdated (clock (m + out.reads)) (req (f front)) with
      | true =>
          cases q with
          | nil =>
              have hlone : readLoop (fun x => req (f x)) (clock.after m) [front] out = none :=
                readLoop_lone hout
              rw [hlone, List.map_cons, List.map_nil, readLoop_lone hout]
              rfl
          | cons next q =>
              have hpair : readLoop (fun x => req (f x)) (clock.after m) (front :: next :: q) out
                  = readLoop (fun x => req (f x)) (clock.after m) q
                    ⟨out.requests ++ [next], out.countPops + 2, out.reads + discardReads (req (f front))⟩ :=
                readLoop_pair hout
              rw [hpair, ← readLoop_lift f req clock m q, List.map_cons, List.map_cons, readLoop_pair hout]
              simp only [liftReadOut, List.map_append, List.map_cons, List.map_nil, Nat.add_assoc]
      | false =>
          cases hsent : (req (f front)).isSentToAstraea with
          | true =>
              have hfresh : readLoop (fun x => req (f x)) (clock.after m) (front :: q) out
                  = readLoop (fun x => req (f x)) (clock.after m) q
                    ⟨out.requests ++ [front], out.countPops + 1, out.reads + 1⟩ :=
                readLoop_fresh hsent hout
              rw [hfresh, ← readLoop_lift f req clock m q, List.map_cons, readLoop_fresh hsent hout]
              simp only [liftReadOut, List.map_append, List.map_cons, List.map_nil, Nat.add_assoc]
          | false =>
              have hunsent : readLoop (fun x => req (f x)) (clock.after m) (front :: q) out
                  = some { out with reads := out.reads + 1 } := readLoop_unsent hsent hout
              rw [hunsent, List.map_cons, readLoop_unsent hsent hout]
              rfl

/-! ## The stretches -/

/-- A read whose database task is done before its message to Astraea is sent. -/
def readStretch (n : Nat) (now : Int) (request ipClient : Str) (outcome : Outcome) : List Event :=
  [.tick now, .startRead n request ipClient, .query n outcome, .push n, .sendWrite n, .deliverWrite n]

def writeStretch (n : Nat) (now : Int) (request ipClient : Str) : List Event :=
  [.tick now, .startWrite n request ipClient, .sendWrite n, .deliverWrite n, .stamp n, .push n]

/-- A read request whose query succeeds: the handler starts, the entry is pushed, and the write is on its way.
    -/
theorem run_readStretch {now : Int} (request ipClient : Str) {outcome : Outcome} {response : Str}
    (hx : S.exit = none) (hnow : S.clock ≤ now) (hq : queryTarget outcome = .ok response) :
    system.run S (readStretch S.nextCall now request ipClient outcome) = some { S with
      clock := now
      calls := Function.update S.calls S.nextCall (some ⟨true, request, ipClient, .received, .pushed⟩)
      nextCall := S.nextCall + 1
      received := S.received ++ [S.nextCall]
      myQueue := S.myQueue ++ [⟨readEntry response ipClient now, S.nextCall⟩]
      executed := S.executed ++ [(S.nextCall, request)] } := by
  have hacc := accepted_of_queryTarget hq
  simp [readStretch, System.run, system, step, State.start, State.setCall, State.execute, hx, hnow, hq, hacc]

/-- A write request: its entry is pushed behind the queue. -/
theorem run_writeStretch {now : Int} (request ipClient : Str) (hx : S.exit = none) (hnow : S.clock ≤ now) :
    system.run S (writeStretch S.nextCall now request ipClient) = some { S with
      clock := now
      calls := Function.update S.calls S.nextCall (some ⟨false, request, ipClient, .received, .pushed⟩)
      nextCall := S.nextCall + 1
      received := S.received ++ [S.nextCall]
      myQueue := S.myQueue ++ [⟨writeEntry request ipClient now, S.nextCall⟩] } := by
  simp [writeStretch, System.run, system, step, State.start, State.setCall, hx, hnow]

/-- The second loop on a queue that nobody else touches. -/
theorem run_pops {k n : Nat} (rcv : List Nat) (requests : List Entry) (hx : S.exit = none)
    (hk : S.releases k = some ⟨rcv, .popping requests n⟩) :
    system.run S (List.replicate n (.pop k)) = some { S.goto k rcv (.popping requests 0) with
      myQueue := S.myQueue.drop n
      popped := S.popped ++ S.myQueue.take n } := by
  induction n generalizing S with
  | zero =>
      have hsame : Function.update S.releases k (some ⟨rcv, .popping requests 0⟩) = S.releases := by
        rw [← hk, Function.update_eq_self]
      simp [State.goto, hsame]
  | succ n ih =>
      rw [List.replicate_succ, System.run_cons]
      cases hq : S.myQueue with
      | nil =>
          have hstep : system.step S (.pop k) = some (S.goto k rcv (.popping requests n)) := by
            simp [system, step, hx, hk, hq]
          rw [hstep, Option.bind_some]
          refine (ih ?_ ?_).trans ?_
          · exact hx
          · exact Function.update_self ..
          · simp [State.goto, hq]
      | cons e q =>
          have hstep : system.step S (.pop k) = some { S.goto k rcv (.popping requests n) with
              myQueue := q, popped := S.popped ++ [e] } := by
            simp [system, step, hx, hk, hq]
          rw [hstep, Option.bind_some]
          refine (ih ?_ ?_).trans ?_
          · exact hx
          · exact Function.update_self ..
          · simp [State.goto]

/-- The responses of release `k`, each delivered as soon as it is posted. -/
def respondStretch (k : Nat) (todo : List Entry) : List Event :=
  todo.flatMap (fun e => [.respond k e.id, .deliver ⟨k, e, answer e.toRequest⟩])

/-- The responses of one list, each delivered before the next is posted. -/
theorem run_responds {k : Nat} {todo : List Entry} (rcv : List Nat) (requests : List Entry)
    (hx : S.exit = none) (hfly : S.inFlight = []) (hk : S.releases k = some ⟨rcv, .responding requests todo⟩) :
    system.run S (respondStretch k todo) = some { S.goto k rcv (.responding requests []) with
      posted := S.posted ++ todo.map (fun e => ⟨k, e, answer e.toRequest⟩)
      delivered := S.delivered ++ todo.map (fun e => ⟨k, e, answer e.toRequest⟩) } := by
  induction todo generalizing S with
  | nil =>
      have hsame : Function.update S.releases k (some ⟨rcv, .responding requests []⟩) = S.releases := by
        rw [← hk, Function.update_eq_self]
      simp [respondStretch, State.goto, hsame]
  | cons e todo ih =>
      -- the posted response is the only one in flight
      have hpair : system.run S [.respond k e.id, .deliver ⟨k, e, answer e.toRequest⟩]
          = some { S.goto k rcv (.responding requests todo) with
            posted := S.posted ++ [⟨k, e, answer e.toRequest⟩]
            delivered := S.delivered ++ [⟨k, e, answer e.toRequest⟩] } := by
        simp [System.run, system, step, State.goto, hx, hk, hfly]
      rw [respondStretch, List.flatMap_cons, System.run_append, hpair, Option.bind_some]
      refine (ih ?_ ?_ ?_).trans ?_
      · exact hx
      · exact hfly
      · exact Function.update_self ..
      · simp [State.goto]

/-- A release from the scan of its copy on. -/
def releaseStretch (k : Nat) (clock : Clock) (out : ReadOut Entry) : List Event :=
  [.scan k clock] ++ List.replicate out.countPops (.pop k) ++ [.ret k] ++ respondStretch k out.requests
    ++ [.finish k]

/-- A release that nobody interrupts takes from the queue what its first loop has counted. -/
theorem run_releaseStretch {k : Nat} {duplicate : List Entry} {out : ReadOut Entry} (rcv : List Nat)
    (since : Int) (hx : S.exit = none) (hfly : S.inFlight = [])
    (hk : S.releases k = some ⟨rcv, .copied duplicate since⟩) (ht : since ≤ clock 0)
    (hout : readLoop Entry.toRequest clock duplicate ⟨[], 0, 0⟩ = some out) :
    system.run S (releaseStretch k clock out) =
      some { S.goto k rcv (.finished out.requests) with
        myQueue := S.myQueue.drop out.countPops
        popped := S.popped ++ S.myQueue.take out.countPops
        posted := S.posted ++ out.requests.map (fun e => ⟨k, e, answer e.toRequest⟩)
        delivered := S.delivered ++ out.requests.map (fun e => ⟨k, e, answer e.toRequest⟩) } := by
  have hscan : system.run S [.scan k clock] = some (S.goto k rcv (.popping out.requests out.countPops)) := by
    simp [System.run, system, step, hx, hk, ht, hout]
  have hpops : system.run (S.goto k rcv (.popping out.requests out.countPops))
      (List.replicate out.countPops (.pop k)) = some { S.goto k rcv (.popping out.requests 0) with
        myQueue := S.myQueue.drop out.countPops
        popped := S.popped ++ S.myQueue.take out.countPops } := by
    refine (run_pops rcv out.requests ?_ ?_).trans ?_
    · exact hx
    · exact Function.update_self ..
    · simp [State.goto]
  have hret : system.run { S.goto k rcv (.popping out.requests 0) with
        myQueue := S.myQueue.drop out.countPops
        popped := S.popped ++ S.myQueue.take out.countPops } [.ret k]
      = some { S.goto k rcv (.responding out.requests out.requests) with
        myQueue := S.myQueue.drop out.countPops
        popped := S.popped ++ S.myQueue.take out.countPops } := by
    simp [System.run, system, step, State.goto, hx]
  have hresponds : system.run { S.goto k rcv (.responding out.requests out.requests) with
        myQueue := S.myQueue.drop out.countPops
        popped := S.popped ++ S.myQueue.take out.countPops } (respondStretch k out.requests)
      = some { S.goto k rcv (.responding out.requests []) with
        myQueue := S.myQueue.drop out.countPops
        popped := S.popped ++ S.myQueue.take out.countPops
        posted := S.posted ++ out.requests.map (fun e => ⟨k, e, answer e.toRequest⟩)
        delivered := S.delivered ++ out.requests.map (fun e => ⟨k, e, answer e.toRequest⟩) } := by
    refine (run_responds rcv out.requests ?_ ?_ ?_).trans ?_
    · exact hx
    · exact hfly
    · exact Function.update_self ..
    · simp [State.goto]
  unfold releaseStretch
  simp only [System.run_append, hscan, Option.bind_some, hpops, hret, hresponds]
  simp [System.run, system, step, State.goto, hx]

/-! ## The embedding -/

/-- The queue and the history of the gateway, in the protocol. -/
structure Embeds (s : Gateway.State) (S : State) : Prop where
  queue     : S.myQueue.map Entry.toRequest = s.myQueue
  pushed    : S.pushes.map Entry.toRequest = pushes s.effects
  answered  : S.posted.map Response.post = responses s.effects
  /-- Every response has been delivered. -/
  delivered : S.delivered = S.posted ∧ S.inFlight = []
  /-- Astraea has received the writes of exactly the requests pushed so far, in that order. -/
  received  : S.received = S.pushes.map Entry.id

/-- Between two operations: no handler is at work, and the clock has not gone past its next reading. -/
structure Between (clock : Clock) (s : Gateway.State) (S : State) : Prop extends Embeds s S where
  running : S.exit = none
  idle    : ∀ k rel, S.releases k = some rel → rel.phase.active = false
  clock   : S.clock ≤ clock s.reads

/-- An entry pushed for a request whose write has been received. -/
theorem Between.push {e : Request} {n : Nat} {calls : Nat → Option Call} {nextCall : Nat}
    {executed : List (Nat × Str)} (h : Between clock s S) (hqueue : s'.myQueue = s.myQueue ++ [e])
    (hpushes : pushes s'.effects = pushes s.effects ++ [e])
    (hresponses : responses s'.effects = responses s.effects) (hreads : s'.reads = s.reads + 1) :
    Between clock s' { S with
      clock := clock s.reads
      calls := calls
      nextCall := nextCall
      received := S.received ++ [n]
      myQueue := S.myQueue ++ [⟨e, n⟩]
      executed := executed } where
  queue     := by rw [hqueue, ← h.queue, List.map_append, List.map_singleton]
  pushed    := by
    show (S.popped ++ (S.myQueue ++ ([⟨e, n⟩] : List Entry))).map Entry.toRequest = pushes s'.effects
    rw [pushes_push, List.map_append, List.map_singleton, h.pushed, hpushes]
  answered  := h.answered.trans hresponses.symm
  delivered := h.delivered
  received  := by
    show S.received ++ [n] = (S.popped ++ (S.myQueue ++ ([⟨e, n⟩] : List Entry))).map Entry.id
    rw [pushes_push, List.map_append, List.map_singleton, h.received]
  running   := h.running
  idle      := h.idle
  clock     := by
    rw [hreads]
    exact clock.mono (Nat.le_succ s.reads)

/-- What a read request that succeeds does to the queue. -/
theorem exec_read_ok {request ipClient : Str} {outcome : Outcome}
    (h : exec clock s (.readRequest request ipClient outcome) = .ok s') :
    ∃ response e, queryTarget outcome = .ok response ∧
      s'.myQueue = s.myQueue ++ [readEntry response ipClient (clock s.reads)] ∧
      s'.effects = s.effects ++ [.push (readEntry response ipClient (clock s.reads)), .postJson e] ∧
      s'.reads = s.reads + 1 := by
  simp only [exec, readRequestFromClient, flushToTarget, Gateway.push] at h
  cases hq : queryTarget outcome with
  | error exit =>
      rw [hq] at h
      cases h
  | ok response =>
      rw [hq] at h
      simp only [Except.ok.injEq] at h
      -- the metrics branch writes neither the queue nor the history
      split at h
      · subst h
        exact ⟨response, _, rfl, rfl, List.append_assoc .., rfl⟩
      · subst h
        exact ⟨response, _, rfl, rfl, List.append_assoc .., rfl⟩

theorem readStretch_free {n : Nat} {now : Int} {request ipClient : Str} {outcome : Outcome} :
    ∀ ev ∈ readStretch n now request ipClient outcome, ∀ S, OneAtATime S ev := by
  simp [readStretch, OneAtATime]

theorem writeStretch_free {n : Nat} {now : Int} {request ipClient : Str} :
    ∀ ev ∈ writeStretch n now request ipClient, ∀ S, OneAtATime S ev := by
  simp [writeStretch, OneAtATime]

/-- **A read request** is a stretch of the protocol. -/
theorem between_read {request ipClient : Str} {outcome : Outcome} (h : Between clock s S)
    (hexec : exec clock s (.readRequest request ipClient outcome) = .ok s') :
    ∃ S', system.Reaches OneAtATime S S' ∧ Between clock s' S' := by
  obtain ⟨response, e, hq, hqueue, heffects, hreads⟩ := exec_read_ok hexec
  have hrun := run_readStretch request ipClient h.running h.clock hq
  refine ⟨_, System.Reaches.of_run readStretch_free hrun, h.push hqueue ?_ ?_ hreads⟩
  · rw [heffects, pushes_append]
    rfl
  · rw [heffects, responses_append]
    exact List.append_nil _

/-- **A write request** is a stretch of the protocol. -/
theorem between_write {request ipClient : Str} (h : Between clock s S) :
    ∃ S', system.Reaches OneAtATime S S' ∧
      Between clock (writeRequestFromClient clock request ipClient s) S' := by
  have hrun := run_writeStretch request ipClient h.running h.clock
  refine ⟨_, System.Reaches.of_run writeStretch_free hrun, h.push rfl ?_ ?_ rfl⟩
  · simp [writeRequestFromClient, Gateway.push, pushes]
  · simp [writeRequestFromClient, Gateway.push, responses]

theorem goto_idle {k : Nat} {rcv : List Nat} {phase : Phase} (hp : phase.active = false)
    (h : ∀ j rel, S.releases j = some rel → rel.phase.active = false) :
    ∀ j rel, (S.goto k rcv phase).releases j = some rel → rel.phase.active = false := by
  intro j rel hj
  rcases update_eq_some hj with ⟨_, rfl⟩ | ⟨_, hj⟩
  · exact hp
  · exact h j rel hj

/-- Astraea posts a release, and its handler copies the queue. -/
theorem reaches_copied (h : Between clock s S) (hne : S.myQueue ≠ []) :
    system.Reaches OneAtATime S { S.goto S.nextRel S.received (.copied S.myQueue S.clock) with
      nextRel := S.nextRel + 1 } := by
  have hreceived : S.received ≠ [] := by
    rw [h.received, State.pushes]
    simp [hne]
  have hpost : system.step S (.postRelease S.nextRel)
      = some { S.goto S.nextRel S.received .inFlight with nextRel := S.nextRel + 1 } := by
    simp [system, step, hreceived]
  refine System.Reaches.snoc (System.Reaches.snoc System.Reaches.refl ?_ hpost)
    (e := .copy S.nextRel) ?_ ?_
  · trivial
  · intro j _ rel hj
    exact goto_idle rfl h.idle j rel hj
  · simp [system, step, State.goto, h.running]

/-- Behind its post, a release meets no condition on others. -/
theorem releaseStretch_free {k : Nat} {clk : Clock} {out : ReadOut Entry} :
    ∀ ev ∈ releaseStretch k clk out, ∀ S, OneAtATime S ev := by
  intro ev hev S
  cases ev with
  | copy => simp [releaseStretch, respondStretch] at hev
  | _ => trivial

/-- What the release handler does on a queue that is not empty. -/
theorem exec_release (clock : Clock) {s : Gateway.State} {q : List Entry}
    (hq : q.map Entry.toRequest = s.myQueue) (hne : q ≠ []) :
    exec clock s .release = (readLoop Entry.toRequest (clock.after s.reads) q ⟨[], 0, 0⟩).elim
      (.error .emptyQueue)
      (fun out => .ok ((out.requests.map Entry.toRequest).foldl (respond clock)
        { s with release := s.release + 1, myQueue := s.myQueue.drop out.countPops,
                 reads := s.reads + out.reads })) := by
  have hlift : readLoop id clock (q.map Entry.toRequest) ⟨[], 0, s.reads⟩
      = (readLoop Entry.toRequest (clock.after s.reads) q ⟨[], 0, 0⟩).map
          (liftReadOut Entry.toRequest s.reads) :=
    readLoop_lift Entry.toRequest id clock s.reads q ⟨[], 0, 0⟩
  have hnonempty : s.myQueue.isEmpty = false := by
    rw [← hq]
    simpa using hne
  simp only [exec, releaseHandler, getRequestsSentToAstraea, hnonempty]
  rw [← hq, hlift]
  cases readLoop Entry.toRequest (clock.after s.reads) q ⟨[], 0, 0⟩ with
  | none => rfl
  | some out => simp [liftReadOut, popLoop_eq]

theorem respondAll_reads (rs : List Request) (s : Gateway.State) :
    (rs.foldl (respond clock) s).reads = s.reads + rs.length := by
  induction rs generalizing s with
  | nil => rfl
  | cons r rs ih =>
      rw [List.foldl_cons, ih, List.length_cons, Nat.add_comm rs.length, ← Nat.add_assoc]
      rfl

theorem exec_release_nil (hnil : s.myQueue = []) :
    exec clock s .release = .ok { s with release := s.release + 1 } := by
  simp [exec, releaseHandler, getRequestsSentToAstraea, hnil]

/-- A release of a queue that is not empty, from the post of Astraea to the end of its handler. -/
theorem reaches_finished {out : ReadOut Entry} (h : Between clock s S) (hne : S.myQueue ≠ [])
    (hout : readLoop Entry.toRequest (clock.after s.reads) S.myQueue ⟨[], 0, 0⟩ = some out) :
    system.Reaches OneAtATime S { S.goto S.nextRel S.received (.finished out.requests) with
      nextRel := S.nextRel + 1
      myQueue := S.myQueue.drop out.countPops
      popped := S.popped ++ S.myQueue.take out.countPops
      posted := S.posted ++ out.requests.map (fun e => ⟨S.nextRel, e, answer e.toRequest⟩)
      delivered := S.delivered ++ out.requests.map (fun e => ⟨S.nextRel, e, answer e.toRequest⟩) } := by
  have hrun : system.run { S.goto S.nextRel S.received (.copied S.myQueue S.clock) with
        nextRel := S.nextRel + 1 } (releaseStretch S.nextRel (clock.after s.reads) out)
      = some { S.goto S.nextRel S.received (.finished out.requests) with
        nextRel := S.nextRel + 1
        myQueue := S.myQueue.drop out.countPops
        popped := S.popped ++ S.myQueue.take out.countPops
        posted := S.posted ++ out.requests.map (fun e => ⟨S.nextRel, e, answer e.toRequest⟩)
        delivered := S.delivered ++ out.requests.map (fun e => ⟨S.nextRel, e, answer e.toRequest⟩) } := by
    refine (run_releaseStretch S.received S.clock ?_ ?_ ?_ ?_ hout).trans ?_
    · exact h.running
    · exact h.delivered.2
    · exact Function.update_self ..
    · exact h.clock
    · simp [State.goto]
  exact (reaches_copied h hne).trans (System.Reaches.of_run releaseStretch_free hrun)

theorem Between.release {out : ReadOut Entry} {nextRel : Nat} (h : Between clock s S)
    (hqueue : s'.myQueue = s.myQueue.drop out.countPops)
    (heffects : s'.effects = s.effects ++ Gateway.answered (out.requests.map Entry.toRequest))
    (hreads : s.reads ≤ s'.reads) :
    Between clock s' { S.goto S.nextRel S.received (.finished out.requests) with
      nextRel := nextRel
      myQueue := S.myQueue.drop out.countPops
      popped := S.popped ++ S.myQueue.take out.countPops
      posted := S.posted ++ out.requests.map (fun e => ⟨S.nextRel, e, answer e.toRequest⟩)
      delivered := S.delivered ++ out.requests.map (fun e => ⟨S.nextRel, e, answer e.toRequest⟩) } where
  queue     := by rw [hqueue, ← h.queue, List.map_drop]
  pushed    := by
    show (S.popped ++ S.myQueue.take out.countPops ++ S.myQueue.drop out.countPops).map _ = _
    rw [List.append_assoc, List.take_append_drop, heffects, pushes_append, pushes_answered, List.append_nil]
    exact h.pushed
  answered  := by
    rw [heffects, responses_append, responses_answered, List.map_append, h.answered]
    simp
  delivered := by
    refine ⟨?_, h.delivered.2⟩
    show S.delivered ++ _ = S.posted ++ _
    rw [h.delivered.1]
  received  := by
    show S.received = (S.popped ++ S.myQueue.take out.countPops ++ S.myQueue.drop out.countPops).map _
    rw [List.append_assoc, List.take_append_drop]
    exact h.received
  running   := h.running
  idle      := goto_idle rfl h.idle
  clock     := Int.le_trans h.clock (clock.mono hreads)

/-- **A release** is a stretch of the protocol, with a new release of its own. -/
theorem between_release (h : Between clock s S) (hexec : exec clock s .release = .ok s') :
    ∃ S', system.Reaches OneAtATime S S' ∧ Between clock s' S' := by
  by_cases hne : S.myQueue = []
  · -- an empty queue is left alone
    have hnil : s.myQueue = [] := by rw [← h.queue, hne, List.map_nil]
    rw [exec_release_nil hnil] at hexec
    obtain rfl := Except.ok.inj hexec
    exact ⟨S, System.Reaches.refl, ⟨h.queue, h.pushed, h.answered, h.delivered, h.received⟩, h.running,
      h.idle, h.clock⟩
  · rw [exec_release clock h.queue hne] at hexec
    cases hout : readLoop Entry.toRequest (clock.after s.reads) S.myQueue ⟨[], 0, 0⟩ with
    | none =>
        rw [hout] at hexec
        cases hexec
    | some out =>
        rw [hout] at hexec
        obtain rfl := Except.ok.inj hexec
        refine ⟨_, reaches_finished h hne hout, h.release ?_ ?_ ?_⟩
        · exact (respondAll_spec ..).1
        · exact (respondAll_spec ..).2
        · rw [respondAll_reads]
          show s.reads ≤ s.reads + out.reads + _
          omega

/-- **One operation** leads from a state between operations to the next. -/
theorem between_exec {op : Op} (h : Between clock s S) (hexec : exec clock s op = .ok s') :
    ∃ S', system.Reaches OneAtATime S S' ∧ Between clock s' S' := by
  cases op with
  | readRequest request ipClient outcome => exact between_read h hexec
  | writeRequest request ipClient =>
      obtain rfl := Except.ok.inj hexec
      exact between_write h
  | release => exact between_release h hexec

/-! ## Operations that end the process -/

theorem exec_read_error {request ipClient : Str} {outcome : Outcome} {exit : Exit}
    (h : exec clock s (.readRequest request ipClient outcome) = .error exit) :
    queryTarget outcome = .error exit := by
  simp only [exec, readRequestFromClient, flushToTarget] at h
  cases hq : queryTarget outcome with
  | error exit' =>
      rw [hq] at h
      obtain rfl := Except.error.inj h
      rfl
  | ok response =>
      rw [hq] at h
      cases h

/-- A read request whose query fails ends the process in the protocol too. -/
theorem ended_read {request ipClient : Str} {outcome : Outcome} {exit : Exit} (h : Between clock s S)
    (hexec : exec clock s (.readRequest request ipClient outcome) = .error exit) :
    ∃ S', system.Reaches OneAtATime S S' ∧ S'.exit = some exit ∧ Embeds s S' := by
  have hq := exec_read_error hexec
  have hrun : system.run S [.tick (clock s.reads), .startRead S.nextCall request ipClient,
      .query S.nextCall outcome] = some { S with
        clock := clock s.reads
        exit := some exit
        calls := Function.update S.calls S.nextCall (some ⟨true, request, ipClient, .unsent, .running⟩)
        nextCall := S.nextCall + 1
        executed := S.execute S.nextCall request outcome } := by
    simp [System.run, system, step, State.start, State.execute, h.running, h.clock, hq]
  refine ⟨_, System.Reaches.of_run ?_ hrun, rfl,
    ⟨h.queue, h.pushed, h.answered, h.delivered, h.received⟩⟩
  simp [OneAtATime]

/-- A release that runs into an empty copy ends the process in the protocol too. -/
theorem ended_release {exit : Exit} (h : Between clock s S) (hexec : exec clock s .release = .error exit) :
    ∃ S', system.Reaches OneAtATime S S' ∧ S'.exit = some exit ∧ Embeds s S' := by
  by_cases hne : S.myQueue = []
  · have hnil : s.myQueue = [] := by rw [← h.queue, hne, List.map_nil]
    rw [exec_release_nil hnil] at hexec
    cases hexec
  · rw [exec_release clock h.queue hne] at hexec
    cases hout : readLoop Entry.toRequest (clock.after s.reads) S.myQueue ⟨[], 0, 0⟩ with
    | none =>
        rw [hout] at hexec
        obtain rfl := Except.error.inj hexec
        have hscan : system.step { S.goto S.nextRel S.received (.copied S.myQueue S.clock) with
            nextRel := S.nextRel + 1 } (.scan S.nextRel (clock.after s.reads))
            = some { S.goto S.nextRel S.received (.copied S.myQueue S.clock) with
              nextRel := S.nextRel + 1, exit := some .emptyQueue } := by
          simp [system, step, State.goto, h.running, h.clock, hout]
        refine ⟨_, System.Reaches.snoc (reaches_copied h hne) ?_ hscan, rfl,
          ⟨h.queue, h.pushed, h.answered, h.delivered, h.received⟩⟩
        trivial
    | some out =>
        rw [hout] at hexec
        cases hexec

theorem ended_exec {op : Op} {exit : Exit} (h : Between clock s S) (hexec : exec clock s op = .error exit) :
    ∃ S', system.Reaches OneAtATime S S' ∧ S'.exit = some exit ∧ Embeds s S' := by
  cases op with
  | readRequest request ipClient outcome => exact ended_read h hexec
  | writeRequest request ipClient => cases hexec
  | release => exact ended_release h hexec

/-! ## Every run of the handlers -/

theorem between_initial (hclock : 0 ≤ clock 0) : Between clock Gateway.initial initial where
  queue     := rfl
  pushed    := rfl
  answered  := rfl
  delivered := ⟨rfl, rfl⟩
  received  := rfl
  running   := rfl
  idle      := nofun
  clock     := hclock

/-- **The handlers one at a time are a schedule of the protocol**, one that handles releases one at a time:
    it leaves the same queue, after the same pushes and the same responses in the same order. If the next
    operation ends the process, the schedule goes on to end it in the same way. -/
theorem sequential_embeds {ops : List Op} (hclock : 0 ≤ clock 0)
    (h : (sequential clock).Path System.Any ops s) :
    (∃ tr S, system.Path OneAtATime tr S ∧ S.exit = none ∧ Embeds s S) ∧
    ∀ op exit, exec clock s op = .error exit →
      ∃ tr S, system.Path OneAtATime tr S ∧ S.exit = some exit ∧ Embeds s S := by
  have hpath : ∃ tr S, system.Path OneAtATime tr S ∧ Between clock s S := by
    refine System.Path.embed (between_initial hclock) ?_ h
    intro s S op s' hbetween _ hstep
    exact between_exec hbetween (exec_of_step hstep)
  obtain ⟨tr, S, hS, hbetween⟩ := hpath
  refine ⟨⟨tr, S, hS, hbetween.running, hbetween.toEmbeds⟩, ?_⟩
  intro op exit hexec
  obtain ⟨S', hreach, hexit, hembeds⟩ := ended_exec hbetween hexec
  obtain ⟨tr', hS'⟩ := hreach.path hS
  exact ⟨tr', S', hS', hexit, hembeds⟩

/-- A write, and a release 9 seconds later: its entry is outdated and stands alone. -/
def lateRelease : List Op := [.writeRequest (lit "INSERT") (lit "a")]

/-- A clock that jumps from 0 to 9 after its first reading. -/
def jump : Clock := ⟨fun t => if t = 0 then 0 else 9, by intro i j hij; split <;> split <;> omega⟩

theorem sequential_embeds_lateRelease : ∃ s, (sequential jump).Path System.Any lateRelease s ∧
    ∃ tr S, system.Path OneAtATime tr S ∧ S.exit = some .emptyQueue ∧ Embeds s S := by
  obtain ⟨s, hs, hp⟩ := System.exists_path_of_run (sequential jump) lateRelease
    (fun s => decide (s.myQueue = [writeEntry (lit "INSERT") (lit "a") 0] ∧ s.reads = 1)) (by decide)
  obtain ⟨hq, hreads⟩ := of_decide_eq_true hp
  have hexec : exec jump s .release = .error .emptyQueue := by
    simp [exec, releaseHandler, getRequestsSentToAstraea, hq, hreads, readLoop, outdated, writeEntry, jump]
  exact ⟨s, hs, (sequential_embeds (by decide) hs).2 .release .emptyQueue hexec⟩

end Protocol
end AstraeaGateway
