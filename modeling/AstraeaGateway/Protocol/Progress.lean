import AstraeaGateway.Progress
import AstraeaGateway.Protocol.Drain

/-!
# `Protocol.Progress` — no party waits for ever

The safety results say what no schedule does. Here is what every schedule comes to when no new request and no
new release comes in: however often the clock ticks in between, it ends within a number of other steps that is
bounded beforehand (`State.left`), and where it cannot go on, either the gateway process has ended or
everything that was started is finished (`schedule_ends`): each request is queued or popped, each release has
answered its whole list, and each response has reached its client.
-/

namespace AstraeaGateway
namespace Protocol

open Transition Gateway

/-- A step that goes on with something already started. -/
def Event.goesOn : Event → Prop
  | .tick _ | .startRead _ _ _ | .startWrite _ _ _ | .postRelease _ => False
  | _ => True

/-- The clock goes on, and nothing else does. -/
def Event.isTick : Event → Bool
  | .tick _ => true
  | _       => false

/-! ## The steps left -/

def WriteMsg.left : WriteMsg → Nat
  | .unsent            => 2
  | .inFlight          => 1
  | .received | .failed => 0

def Pushing.left : Pushing → Nat
  | .running => 2
  | .ready _ => 1
  | .pushed  => 0

def Call.left (c : Call) : Nat := c.write.left + c.pushing.left

/-- The steps that a release and its responses have still to take, if the queue can get `n` long. -/
def Phase.left (n : Nat) : Phase → Nat
  | .inFlight                   => 3 * n + 4
  | .copied duplicate _         => 3 * duplicate.length + 3
  | .popping requests countPops => countPops + 2 * requests.length + 2
  | .responding _ todo          => 2 * todo.length + 1
  | .finished _                 => 0

def Release.left (n : Nat) (rel : Release) : Nat := rel.phase.left n

/-- The step that ends the process. -/
def exitLeft (exit : Option Exit) : Nat := if exit = none then 1 else 0

/-- The steps that all parties have still to take. -/
def stepsLeft (calls : Nat → Option Call) (nextCall : Nat) (releases : Nat → Option Release) (nextRel : Nat)
    (inFlight : List Response) (exit : Option Exit) : Nat :=
  work Call.left calls nextCall + work (Release.left nextCall) releases nextRel + inFlight.length +
    exitLeft exit

def State.left (s : State) : Nat :=
  stepsLeft s.calls s.nextCall s.releases s.nextRel s.inFlight s.exit

variable {calls : Nat → Option Call} {releases : Nat → Option Release} {rcv : List Nat} {n m r k : Nat}
variable {c c' : Call} {phase phase' : Phase} {s s' : State} {ev : Event} {tr : List Event}

/-- At most one entry for each request. -/
theorem pushes_length_le (h : Inv s) : s.pushes.length ≤ s.nextCall := by
  have hsub : s.pushes.map Entry.id ⊆ List.range s.nextCall := by
    intro r hr
    obtain ⟨e, he, rfl⟩ := List.mem_map.mp hr
    obtain ⟨c, hc, -⟩ := h.push.pushed e he
    exact List.mem_range.mpr (h.call.known _ _ hc)
  have hle := (h.push.once.subperm hsub).length_le
  rwa [List.length_map, List.length_range] at hle

theorem myQueue_length_le (h : Inv s) : s.myQueue.length ≤ s.nextCall := by
  have hle := pushes_length_le h
  rw [State.pushes, List.length_append] at hle
  omega

/-- The steps of a release handler, while the queue is `myQueue`. -/
inductive Phase.Next (myQueue : List Entry) : Phase → Phase → Prop
  | copy (since : Int) : Next myQueue .inFlight (.copied myQueue since)
  | scan {duplicate : List Entry} {since : Int} {clock : Clock} {out : ReadOut Entry}
      (hout : readLoop Entry.toRequest clock duplicate ⟨[], 0, 0⟩ = some out) :
      Next myQueue (.copied duplicate since) (.popping out.requests out.countPops)
  | pop {requests : List Entry} {m : Nat} : Next myQueue (.popping requests (m + 1)) (.popping requests m)
  | ret {requests : List Entry} : Next myQueue (.popping requests 0) (.responding requests requests)
  | respond {requests todo : List Entry} {e : Entry} :
      Next myQueue (.responding requests (e :: todo)) (.responding requests todo)
  | finish {requests : List Entry} : Next myQueue (.responding requests []) (.finished requests)

/-- **A release handler that moves has less to do.** -/
theorem Phase.Next.left_lt {myQueue : List Entry} (h : Phase.Next myQueue phase phase')
    (hq : myQueue.length ≤ n) : phase'.left n < phase.left n := by
  cases h with
  | copy =>
      show 3 * myQueue.length + 3 < 3 * n + 4
      omega
  | @scan duplicate since clock out hout =>
      -- it returns a part of what it pops, and pops a part of what it has copied
      obtain ⟨hle, hsub⟩ := readLoop_sublist hout
      have hlen := hsub.length_le
      rw [List.length_take] at hlen
      show out.countPops + 2 * out.requests.length + 2 < 3 * duplicate.length + 3
      omega
  | pop | ret | respond | finish =>
      simp only [Phase.left, List.length_cons, List.length_nil]
      omega

/-! ## Each step uses up some of them -/

theorem setCall_left_lt (h : Inv s) (hc : s.calls r = some c) (hlt : c'.left < c.left) :
    stepsLeft (Function.update s.calls r (some c')) s.nextCall s.releases s.nextRel s.inFlight s.exit
      < s.left := by
  have hwork : work Call.left (Function.update s.calls r (some c')) s.nextCall < work Call.left s.calls s.nextCall :=
    work_lt (h.call.known r c hc) hc hlt
  unfold State.left stepsLeft
  omega

theorem goto_left_lt (h : Inv s) (hk : s.releases k = some ⟨rcv, phase⟩)
    (hnext : Phase.Next s.myQueue phase phase') :
    stepsLeft s.calls s.nextCall (Function.update s.releases k (some ⟨rcv, phase'⟩)) s.nextRel s.inFlight
      s.exit < s.left := by
  have hlt : Release.left s.nextCall ⟨rcv, phase'⟩ < Release.left s.nextCall ⟨rcv, phase⟩ :=
    hnext.left_lt (myQueue_length_le h)
  have hwork := work_lt (h.release.known k _ hk) hk hlt
  unfold State.left stepsLeft
  omega

/-- A response that is posted has one step left, the one to its client. -/
theorem respond_left_lt {requests todo : List Entry} {e : Entry} {resp : Response} (h : Inv s)
    (hk : s.releases k = some ⟨rcv, .responding requests (e :: todo)⟩) :
    stepsLeft s.calls s.nextCall (Function.update s.releases k (some ⟨rcv, .responding requests todo⟩))
      s.nextRel (s.inFlight ++ [resp]) s.exit < s.left := by
  have hwork := work_update (Release.left s.nextCall) (h.release.known k _ hk) hk
    ⟨rcv, .responding requests todo⟩
  have hcost : Release.left s.nextCall ⟨rcv, .responding requests (e :: todo)⟩
      = Release.left s.nextCall ⟨rcv, .responding requests todo⟩ + 2 := by
    simp only [Release.left, Phase.left, List.length_cons]
    omega
  unfold State.left stepsLeft
  rw [List.length_append, List.length_singleton]
  omega

theorem exit_left_lt (hx : s.exit = none) (exit : Exit) :
    stepsLeft s.calls s.nextCall s.releases s.nextRel s.inFlight (some exit) < s.left := by
  have hone : exitLeft s.exit = 1 := if_pos hx
  have hzero : exitLeft (some exit) = 0 := if_neg (Option.some_ne_none exit)
  unfold State.left stepsLeft
  omega

theorem deliver_left_lt {resp : Response} (hr : resp ∈ s.inFlight) :
    stepsLeft s.calls s.nextCall s.releases s.nextRel (s.inFlight.erase resp) s.exit < s.left := by
  have hlen := List.length_erase_of_mem hr
  have hpos := List.length_pos_of_mem hr
  unfold State.left stepsLeft
  omega

theorem Step.left_lt (h : Inv s) (hgo : ev.goesOn) (hstep : Step s ev s') : s'.left < s.left := by
  cases hstep with
  | tick | startRead | startWrite | postRelease => exact hgo.elim
  | sendWrite _ hc hw       => exact setCall_left_lt h hc (by simp [Call.left, hw, WriteMsg.left])
  | loseWrite hc hw         => exact setCall_left_lt h hc (by simp [Call.left, hw, WriteMsg.left])
  | deliverWrite hc hw      => exact setCall_left_lt h hc (by simp [Call.left, hw, WriteMsg.left])
  | queryOk _ hc _ hrun     => exact setCall_left_lt h hc (by simp [Call.left, hrun, Pushing.left])
  | queryExit hx            => exact exit_left_lt hx _
  | stamp _ hc _ hrun       => exact setCall_left_lt h hc (by simp [Call.left, hrun, Pushing.left])
  | push _ hc he            => exact setCall_left_lt h hc (by simp [Call.left, he, Pushing.left])
  | copy _ hk               => exact (goto_left_lt h hk (Phase.Next.copy s.clock) :)
  | scan _ hk _ hout        => exact (goto_left_lt h hk (Phase.Next.scan hout) :)
  | scanCrash hx            => exact exit_left_lt hx _
  | popNothing _ hk         => exact (goto_left_lt h hk Phase.Next.pop :)
  | pop _ hk                => exact (goto_left_lt h hk Phase.Next.pop :)
  | ret _ hk                => exact (goto_left_lt h hk Phase.Next.ret :)
  | respond _ hk            => exact (respond_left_lt h hk :)
  | finish _ hk             => exact (goto_left_lt h hk Phase.Next.finish :)
  | deliver hr              => exact deliver_left_lt hr

theorem consumes : system.Consumes Event.goesOn Inv State.left where
  keeps _ _ _ h _ hstep := inv_step h hstep
  uses _ _ _ h hgo hstep := (step_cases hstep).left_lt h hgo

/-! ## Where no step is left -/

/-- While the process runs, a request that is not through can take a step. -/
theorem enabled_of_call (hx : s.exit = none) (hc : s.calls r = some c)
    (hopen : ¬ (c.write ≠ .unsent ∧ c.write ≠ .inFlight ∧ c.pushing = .pushed)) :
    ∃ ev s', Event.goesOn ev ∧ system.step s ev = some s' := by
  by_cases hun : c.write = .unsent
  · exact ⟨.sendWrite r, _, trivial, by simp only [system, step, hc, hx, hun]; rfl⟩
  by_cases hin : c.write = .inFlight
  · exact ⟨.deliverWrite r, _, trivial, by simp only [system, step, hc, hin]; rfl⟩
  cases hp : c.pushing with
  | running =>
      cases hread : c.readRequest with
      | true =>
          -- whatever the query gives, the task goes on; take an empty result
          exact ⟨.query r .noRows, _, trivial, by simp only [system, step, hc, hx, hread, hp]; rfl⟩
      | false => exact ⟨.stamp r, _, trivial, by simp only [system, step, hc, hx, hread, hp]; simp [hun]; rfl⟩
  | ready e => exact ⟨.push r, _, trivial, by simp only [system, step, hc, hx, hp]; rfl⟩
  | pushed => exact absurd ⟨hun, hin, hp⟩ hopen

/-- While the process runs, a release that is not finished can take a step. -/
theorem enabled_of_release (hx : s.exit = none) (hk : s.releases k = some ⟨rcv, phase⟩)
    (hopen : ∀ requests, phase ≠ .finished requests) :
    ∃ ev s', Event.goesOn ev ∧ system.step s ev = some s' := by
  cases phase with
  | inFlight => exact ⟨.copy k, _, trivial, by simp only [system, step, hx, hk]; rfl⟩
  | copied duplicate since =>
      -- a clock that stands still does; the scan ends the process or returns
      have hle : since ≤ Clock.held since 0 := Int.le_refl since
      cases hout : readLoop Entry.toRequest (Clock.held since) duplicate ⟨[], 0, 0⟩ with
      | none =>
          exact ⟨.scan k (Clock.held since), _, trivial,
            by simp only [system, step, hx, hk, if_pos hle, hout]; rfl⟩
      | some out =>
          exact ⟨.scan k (Clock.held since), _, trivial,
            by simp only [system, step, hx, hk, if_pos hle, hout]; rfl⟩
  | popping requests m =>
      cases m with
      | zero => exact ⟨.ret k, _, trivial, by simp only [system, step, hx, hk]; rfl⟩
      | succ m =>
          cases hq : s.myQueue with
          | nil => exact ⟨.pop k, _, trivial, by simp only [system, step, hx, hk, hq]; rfl⟩
          | cons e q => exact ⟨.pop k, _, trivial, by simp only [system, step, hx, hk, hq]; rfl⟩
  | responding requests todo =>
      cases todo with
      | nil => exact ⟨.finish k, _, trivial, by simp only [system, step, hx, hk]; rfl⟩
      | cons e todo =>
          exact ⟨.respond k e.id, _, trivial, by simp only [system, step, hx, hk, if_pos]; rfl⟩
  | finished requests => exact absurd rfl (hopen requests)

theorem not_enabled (hstuck : system.Stuck Event.goesOn s) :
    ¬ ∃ ev s', Event.goesOn ev ∧ system.step s ev = some s' := by
  rintro ⟨ev, s', hgo, hstep⟩
  rw [hstuck ev hgo] at hstep
  cases hstep

/-- What is left when nothing can go on. -/
structure Ended (s : State) : Prop where
  /-- Every response has reached its client. -/
  delivered : s.inFlight = []
  /-- The process has ended, or every request is through and every release finished. -/
  through   : s.exit = none → AtRest s

theorem ended_of_stuck (hstuck : system.Stuck Event.goesOn s) : Ended s := by
  have hnone := not_enabled hstuck
  have hdelivered : s.inFlight = [] := by
    cases hfly : s.inFlight with
    | nil => rfl
    | cons resp rest =>
        have hmem : resp ∈ s.inFlight := by
          rw [hfly]
          exact List.mem_cons_self
        exact absurd ⟨.deliver resp, _, trivial, by simp only [system, step, if_pos hmem]; rfl⟩ hnone
  refine ⟨hdelivered, fun hx => ⟨fun r _ c hc => ?_, fun k _ rel hrel => ?_, hdelivered⟩⟩
  · by_contra hopen
    exact hnone (enabled_of_call hx hc hopen)
  · obtain ⟨rcv, phase⟩ := rel
    by_contra hopen
    refine hnone (enabled_of_release hx hrel (fun requests hphase => hopen ?_))
    obtain rfl : phase = .finished requests := hphase
    exact ⟨Phase.noConfusion, rfl⟩

/-- A tick neither takes a step of a handler nor adds one. -/
theorem left_tick (h : Inv s) (htick : ev.isTick = true) (hstep : system.step s ev = some s') :
    Inv s' ∧ s'.left = s.left := by
  refine ⟨inv_step h hstep, ?_⟩
  cases step_cases hstep with
  | tick => rfl
  | _ => cases htick

/-- **Every schedule ends**, from every reachable state: when no new request and no new release comes in, it
    takes at most the steps left, ticks of the clock apart; it goes on until all is through or the process has
    ended, and there is such a schedule. -/
theorem schedule_ends {tr : List Event} {s : State} (h : system.Path System.Any tr s) :
    (∀ es s', (∀ ev ∈ es, ev.goesOn ∨ ev.isTick = true) → system.run s es = some s' →
      es.countP (fun ev => !ev.isTick) + s'.left ≤ s.left ∧ (system.Stuck Event.goesOn s' → Ended s')) ∧
    ∃ es s', (∀ ev ∈ es, ev.goesOn) ∧ system.run s es = some s' ∧ Ended s' := by
  have hinv := inv_of_path h
  have htick : ∀ s ev s', Inv s → Event.isTick ev = true → system.step s ev = some s' → Inv s' ∧ s'.left = s.left :=
    fun s ev s' hs hev hstep => left_tick hs hev hstep
  refine ⟨fun es s' hes hrun => ⟨(consumes.run_idling htick hinv hes hrun).2, ended_of_stuck⟩, ?_⟩
  obtain ⟨es, s', hes, hrun, hstuck⟩ := consumes.exists_stuck hinv
  exact ⟨es, s', hes, hrun, ended_of_stuck hstuck⟩

/-- A read and a write have just started, and a release for the write is on its way. -/
def justStarted : List Event :=
  [.startRead 0 (lit "SELECT") (lit "a"), .startWrite 1 (lit "INSERT") (lit "b"), .sendWrite 1,
   .deliverWrite 1, .postRelease 0]

theorem schedule_ends_justStarted : ∃ s, system.Path System.Any justStarted s ∧
    ∃ es s', (∀ ev ∈ es, ev.goesOn) ∧ system.run s es = some s' ∧ Ended s' := by
  obtain ⟨s, hs, -⟩ := System.exists_path_of_run system justStarted (fun _ => true) (by decide)
  exact ⟨s, hs, (schedule_ends hs).2⟩

end Protocol
end AstraeaGateway
