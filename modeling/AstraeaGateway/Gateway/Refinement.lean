import AstraeaGateway.Fifo
import AstraeaGateway.Gateway.Recording

/-!
# `Gateway.Refinement` — one at a time, the gateway is a FIFO buffer

A request enqueues an entry, a release flushes the buffer: under `Refines`, each operation of the
sequential gateway is one operation of `Fifo.buffer`, and what the buffer has released is what the clients
have been answered and `record_time` has counted. The count of pops on the live queue matches what was read from
the copy because every entry is marked as sent and none is outdated, so the read-out takes the queue whole.
`run_fifo` has counters without a bound; `Gateway.Bounded.Handlers` has the source's.
-/

namespace AstraeaGateway
namespace Gateway

open Transition

variable {clock : Clock} {s s' : State}

/-- What the operations are promised: the query of a read succeeds and returns a result set, and at each
    clock reading of a release no queued request is more than 5 seconds old. -/
def Admitted (clock : Clock) (s : State) : Op → Prop
  | .readRequest _ _ outcome => ∃ result, outcome = .stored result
  | .writeRequest _ _        => True
  | .release => ∀ n, s.reads ≤ n → n < s.reads + s.myQueue.length →
      ∀ r ∈ s.myQueue, outdated (clock n) r = false

/-- The entry an operation enqueues when the clock reads `now`. -/
def Op.entry (now : Int) : Op → Option Request
  | .readRequest _ ipClient (.stored result) => some (readEntry (resultLoop result) ipClient now)
  | .readRequest _ _ _                       => none
  | .writeRequest request ipClient           => some (writeEntry request ipClient now)
  | .release                                 => none

/-- `Accepted ops rs`: the requests of `ops` enqueue the entries `rs`, one each and in order. -/
inductive Accepted : List Op → List Request → Prop
  | nil : Accepted [] []
  | request {op : Op} {r : Request} {ops : List Op} {rs : List Request}
      (h : op.entry r.timestamp = some r) (hops : Accepted ops rs) : Accepted (op :: ops) (r :: rs)
  | release {ops : List Op} {rs : List Request} (hops : Accepted ops rs) :
      Accepted (.release :: ops) rs

/-! ## The handlers, seen from the queue and the history -/

theorem pushes_append (es es' : List Effect) : pushes (es ++ es') = pushes es ++ pushes es' :=
  List.filterMap_append

theorem responses_append (es es' : List Effect) :
    responses (es ++ es') = responses es ++ responses es' := List.filterMap_append

/-- The calls of `record_time` that its counts account for, in the entries and pending. -/
def callsCounted (m : Metrics) : Int := rowTotal m + m.throughput

theorem callsCounted_recordTime (currentSecond : Int) (m : Metrics) :
    callsCounted (recordTime currentSecond m) = callsCounted m + 1 := (recordTime_spec currentSecond m).1

theorem readRequest_spec (clock : Clock) (s : State) (request ipClient : Str) (result : ResultSet) :
    ∃ s' e, exec clock s (.readRequest request ipClient (.stored result)) = .ok s' ∧
      s'.myQueue = s.myQueue ++ [readEntry (resultLoop result) ipClient (clock s.reads)] ∧
      s'.effects = s.effects ++
        [.push (readEntry (resultLoop result) ipClient (clock s.reads)), .postJson e] ∧
      callsCounted s'.metrics = callsCounted s.metrics := by
  simp only [exec, readRequestFromClient, flushToTarget, queryTarget, push]
  -- the metrics branch writes neither the queue nor the history, and counts nothing
  split
  · exact ⟨_, _, rfl, rfl, List.append_assoc .., rfl⟩
  · exact ⟨_, _, rfl, rfl, List.append_assoc .., rfl⟩

/-- What the loop of `release` adds to the history. -/
def answered (rs : List Request) : List Effect :=
  rs.flatMap (fun r => [.post (answer r), .recordTime])

theorem respondAll_spec (rs : List Request) (s : State) :
    (rs.foldl (respond clock) s).myQueue = s.myQueue ∧
    (rs.foldl (respond clock) s).effects = s.effects ++ answered rs := by
  induction rs generalizing s with
  | nil => exact ⟨rfl, (List.append_nil _).symm⟩
  | cons r rs ih =>
      obtain ⟨hq, he⟩ := ih (respond clock s r)
      rw [List.foldl_cons]
      refine ⟨hq, he.trans ?_⟩
      simp [respond, answered]

/-- Each iteration of the loop of `release` is counted once. -/
theorem callsCounted_respondAll (rs : List Request) (s : State) :
    callsCounted (rs.foldl (respond clock) s).metrics = callsCounted s.metrics + rs.length := by
  induction rs generalizing s with
  | nil => exact (Int.add_zero _).symm
  | cons r rs ih =>
      have hone : callsCounted (respond clock s r).metrics = callsCounted s.metrics + 1 :=
        callsCounted_recordTime _ _
      rw [List.foldl_cons, ih, hone, List.length_cons]
      omega

theorem pushes_answered (rs : List Request) : pushes (answered rs) = [] := by
  induction rs with
  | nil => rfl
  | cons r rs ih => simpa [answered, pushes] using ih

theorem responses_answered (rs : List Request) : responses (answered rs) = rs.map answer := by
  induction rs with
  | nil => rfl
  | cons r rs ih => simpa [answered, responses] using ih

/-- **A release of a fresh queue** answers all of it, in order, and leaves it empty. -/
theorem release_spec (hsent : ∀ r ∈ s.myQueue, r.isSentToAstraea = true)
    (hfresh : Admitted clock s .release) :
    ∃ s', exec clock s .release = .ok s' ∧ s'.myQueue = [] ∧
      s'.effects = s.effects ++ answered s.myQueue ∧
      callsCounted s'.metrics = callsCounted s.metrics + s.myQueue.length := by
  have hread : getRequestsSentToAstraea id clock s.reads s.myQueue
      = some ⟨s.myQueue, [], s.reads + s.myQueue.length⟩ :=
    getRequests_of_fresh (fun r hr => hsent r hr) hfresh
  simp only [exec, releaseHandler, hread]
  exact ⟨_, rfl, (respondAll_spec _ _).1, (respondAll_spec _ _).2, callsCounted_respondAll _ _⟩

/-! ## The refinement -/

/-- The buffer holds `myQueue`, every entry marked as sent, and has released what was answered. -/
structure Refines (s : State) (b : Fifo.Buffer Request) : Prop where
  held      : s.myQueue = b.held
  sent      : ∀ r ∈ s.myQueue, r.isSentToAstraea = true
  pushed    : pushes s.effects = b.released ++ b.held
  responses : responses s.effects = b.released.map answer
  recorded  : callsCounted s.metrics = b.released.length

/-- The buffer operation that an operation of the gateway is. -/
def Matches (op : Op) : Fifo.Op Request → Prop
  | .enqueue r => op.entry r.timestamp = some r
  | .flush     => op = .release

/-- Pushing an entry that is marked as sent, and any message to Astraea, is an `enqueue`. -/
theorem Refines.enqueue {b : Fifo.Buffer Request} {r : Request} {es : List Effect} (h : Refines s b)
    (hsent : r.isSentToAstraea = true) (hq : s'.myQueue = s.myQueue ++ [r])
    (he : s'.effects = s.effects ++ es) (hpush : pushes es = [r]) (hresp : Gateway.responses es = [])
    (hrec : callsCounted s'.metrics = callsCounted s.metrics) : Refines s' (Fifo.apply b (.enqueue r)) where
  held := by
    rw [hq, h.held]
    rfl
  sent x hx := by
    rw [hq, List.mem_append, List.mem_singleton] at hx
    rcases hx with hx | rfl
    · exact h.sent x hx
    · exact hsent
  pushed := by
    rw [he, pushes_append, h.pushed, hpush, List.append_assoc]
    rfl
  responses := by
    rw [he, responses_append, h.responses, hresp, List.append_nil]
    rfl
  recorded := hrec.trans h.recorded

/-- Answering the whole queue is a `flush`. -/
theorem Refines.flush {b : Fifo.Buffer Request} (h : Refines s b) (hq : s'.myQueue = [])
    (he : s'.effects = s.effects ++ answered s.myQueue)
    (hrec : callsCounted s'.metrics = callsCounted s.metrics + s.myQueue.length) :
    Refines s' (Fifo.apply b .flush) where
  held := hq
  sent r hr := by
    rw [hq] at hr
    cases hr
  pushed := by
    rw [he, pushes_append, pushes_answered, List.append_nil, h.pushed]
    exact (List.append_nil _).symm
  responses := by
    rw [he, responses_append, responses_answered, h.responses, h.held, ← List.map_append]
    rfl
  recorded := by
    rw [hrec, h.recorded, h.held, ← Int.natCast_add, ← List.length_append]
    rfl

/-- **Every admitted operation returns, and is one operation of the buffer.** -/
theorem exec_refines {b : Fifo.Buffer Request} {op : Op} (h : Refines s b) (hc : Admitted clock s op) :
    ∃ s' k, (sequential clock).step s op = some s' ∧ Matches op k ∧ Refines s' (Fifo.apply b k) := by
  cases op with
  | readRequest request ipClient outcome =>
      obtain ⟨result, rfl⟩ := hc
      obtain ⟨s', e, hexec, hq, he, hrec⟩ := readRequest_spec clock s request ipClient result
      exact ⟨s', .enqueue (readEntry (resultLoop result) ipClient (clock s.reads)),
        congrArg Except.toOption hexec, rfl, h.enqueue rfl hq he rfl rfl hrec⟩
  | writeRequest request ipClient =>
      exact ⟨_, .enqueue (writeEntry request ipClient (clock s.reads)), rfl, rfl,
        h.enqueue rfl rfl (List.append_assoc ..) rfl rfl rfl⟩
  | release =>
      obtain ⟨s', hexec, hq, he, hrec⟩ := release_spec h.sent hc
      exact ⟨s', .flush, congrArg Except.toOption hexec, rfl, h.flush hq he hrec⟩

theorem refines_initial : Refines initial ⟨[], []⟩ :=
  ⟨rfl, fun _ hr => absurd hr List.not_mem_nil, rfl, rfl, rfl⟩

/-- **Run by run.** An admitted sequence of operations runs to its end, along a run of the buffer whose
    operations are the gateway's, one by one. -/
theorem run_refines {ops : List Op} (h : (sequential clock).Meets (Admitted clock) initial ops) :
    ∃ s ks b, (sequential clock).run initial ops = some s ∧ List.Forall₂ Matches ops ks ∧
      (Fifo.buffer Request).run ⟨[], []⟩ ks = some b ∧ Refines s b := by
  obtain ⟨s, hrun⟩ : ∃ s, (sequential clock).run initial ops = some s := by
    refine System.exists_run_of_meets (P := fun s => ∃ b, Refines s b) ?_ ⟨_, refines_initial⟩ h
    rintro s op ⟨b, hb⟩ hc
    obtain ⟨s', k, hstep, _, hR⟩ := exec_refines hb hc
    exact ⟨s', hstep, _, hR⟩
  -- that the run reaches its end is shown apart: a simulation only speaks of runs that exist
  have hpath : (sequential clock).Path (Admitted clock) ops s := System.path_of_meets h hrun
  have hsim := hpath.simulate (A := Fifo.buffer Request) (R := Refines) (L := Matches) refines_initial
    (by
      intro s b op s' hb hc hstep
      obtain ⟨s'', k, hstep', hk, hR⟩ := exec_refines hb hc
      obtain rfl := Option.some.inj (hstep.symm.trans hstep')
      exact ⟨k, _, hk, rfl, hR⟩)
  obtain ⟨ks, b, hb, hL, hR⟩ := hsim
  exact ⟨s, ks, b, hrun, hL, hb.run, hR⟩

/-! ## What the clients see -/

theorem answer_url (r : Request) : (answer r).url = r.ipClient ++ lit "/response" := by
  unfold answer
  split <;> rfl

theorem Matches.accepted {ops : List Op} {ks : List (Fifo.Op Request)}
    (h : List.Forall₂ Matches ops ks) : Accepted ops (Fifo.enqueued ks) := by
  induction h with
  | nil => exact Accepted.nil
  | @cons op k ops ks hk _ ih =>
      cases k with
      | enqueue r => exact Accepted.request hk ih
      | flush =>
          obtain rfl : op = .release := hk
          exact Accepted.release ih

theorem Matches.no_flush {ops : List Op} {ks : List (Fifo.Op Request)}
    (h : List.Forall₂ Matches ops ks) (hrel : Op.release ∉ ops) : Fifo.Op.flush ∉ ks := by
  induction h with
  | nil => exact List.not_mem_nil
  | @cons op k ops ks hk _ ih =>
      have htail := ih (fun hmem => hrel (List.mem_cons_of_mem op hmem))
      intro hmem
      rcases List.mem_cons.mp hmem with rfl | hmem
      · obtain rfl : op = .release := hk
        exact hrel List.mem_cons_self
      · exact htail hmem

theorem Matches.split {pre post : List Op} {ks : List (Fifo.Op Request)}
    (h : List.Forall₂ Matches (pre ++ .release :: post) ks) :
    ∃ kpre kpost, ks = kpre ++ .flush :: kpost ∧ List.Forall₂ Matches pre kpre ∧
      List.Forall₂ Matches post kpost := by
  induction pre generalizing ks with
  | nil =>
      obtain ⟨k, kpost, hk, hpost, rfl⟩ := List.forall₂_cons_left_iff.mp h
      cases k with
      | enqueue r => exact absurd hk (by simp [Matches, Op.entry])
      | flush => exact ⟨[], kpost, rfl, List.Forall₂.nil, hpost⟩
  | cons op pre ih =>
      obtain ⟨k, ks', hk, hrest, rfl⟩ := List.forall₂_cons_left_iff.mp h
      obtain ⟨kpre, kpost, rfl, hpre, hpost⟩ := ih hrest
      exact ⟨k :: kpre, kpost, rfl, List.Forall₂.cons hk hpre, hpost⟩

/-- What an admitted sequence of operations leaves behind. -/
structure FifoRun (ops : List Op) (s : State) : Prop where
  /-- Around the last release: the requests before it were answered, in order and each at its own client,
      and the queue holds the requests after it. -/
  lastRelease : ∀ pre post, ops = pre ++ .release :: post → .release ∉ post →
    ∃ old new, Accepted pre old ∧ Accepted post new ∧ pushes s.effects = old ++ new ∧
      responses s.effects = old.map answer ∧ s.myQueue = new ∧
      (responses s.effects).map Post.url = old.map (fun r => r.ipClient ++ lit "/response")
  /-- Without a release: nothing was answered, and the queue holds every request. -/
  noRelease : .release ∉ ops → ∃ new, Accepted ops new ∧ pushes s.effects = new ∧
    responses s.effects = [] ∧ s.myQueue = new
  /-- `record_time` was called once per response: its counts account for as many calls. -/
  recorded : callsCounted s.metrics = (responses s.effects).length

/-- Without bounds on its counters, every admitted sequence of operations runs to its end and answers the
    requests in order. -/
theorem run_fifo (clock : Clock) (ops : List Op)
    (h : (sequential clock).Meets (Admitted clock) initial ops) :
    ∃ s, (sequential clock).run initial ops = some s ∧ FifoRun ops s := by
  obtain ⟨s, ks, b, hrun, hmatch, hbuf, hR⟩ := run_refines h
  refine ⟨s, hrun, ?_, ?_, ?_⟩
  · rintro pre post rfl hpost
    obtain ⟨kpre, kpost, rfl, hkpre, hkpost⟩ := Matches.split hmatch
    rw [Fifo.run_flush_last kpre kpost (Matches.no_flush hkpost hpost)] at hbuf
    obtain rfl := Option.some.inj hbuf
    refine ⟨Fifo.enqueued kpre, Fifo.enqueued kpost, Matches.accepted hkpre, Matches.accepted hkpost,
      hR.pushed, hR.responses, hR.held, ?_⟩
    rw [hR.responses, List.map_map]
    exact List.map_congr_left (fun r _ => answer_url r)
  · intro hrel
    rw [Fifo.run_of_no_flush _ ks (Matches.no_flush hmatch hrel)] at hbuf
    obtain rfl := Option.some.inj hbuf
    exact ⟨Fifo.enqueued ks, Matches.accepted hmatch, hR.pushed, hR.responses, hR.held⟩
  · rw [hR.recorded, hR.responses, List.length_map]

end Gateway
end AstraeaGateway
