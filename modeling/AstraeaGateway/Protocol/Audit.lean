import AstraeaGateway.Protocol.Invariant

/-!
# `Protocol.Audit` — is a request logged before it is answered?

A release answers whatever is queued when its handler copies the queue: the entry's `is_sent_to_astraea` is
set when it is built, not when its write arrives. So a request that is pushed while an older release is on
its way is answered on that release, logged or not (`overtaken`). `LoggedFirst` is what has to hold of the
pushes and of Astraea's releases for the guarantee to hold, and `answered_logged` is the guarantee.
-/

namespace AstraeaGateway
namespace Protocol

open Transition Gateway

/-- **Logged in time.** When a request is pushed, no release is on its way that Astraea posted without the
    request's write; and when Astraea posts a release, it has the write of every queued request. -/
def LoggedFirst (s : State) : Event → Prop
  | .push r        => ∀ k < s.nextRel, ∀ rel ∈ s.releases k, rel.phase = .inFlight → r ∈ rel.received
  | .postRelease _ => ∀ e ∈ s.myQueue, e.id ∈ s.received
  | _              => True

instance (s : State) : (ev : Event) → Decidable (LoggedFirst s ev)
  | .push r => inferInstanceAs (Decidable
      (∀ k < s.nextRel, ∀ rel ∈ s.releases k, rel.phase = .inFlight → r ∈ rel.received))
  | .postRelease _ => inferInstanceAs (Decidable (∀ e ∈ s.myQueue, e.id ∈ s.received))
  | .tick _ | .startRead _ _ _ | .startWrite _ _ _ | .sendWrite _ | .loseWrite _ | .deliverWrite _
  | .query _ _ | .stamp _ | .copy _ | .scan _ _ | .pop _ | .ret _ | .respond _ _ | .finish _
  | .deliver _ => isTrue trivial

variable {tr : List Event} {releases : Nat → Option Release} {received rcv : List Nat} {k r : Nat}
variable {phase phase' : Phase} {myQueue : List Entry} {s s' : State} {ev : Event}

/-! ## What the trace says about a release -/

/-- The writes recorded with a release were received before it was posted. -/
structure TraceInv (tr : List Event) (received : List Nat) (releases : Nat → Option Release) : Prop where
  received : ∀ r ∈ received, Event.deliverWrite r ∈ tr
  posted   : ∀ k rel, releases k = some rel → ∀ r ∈ rel.received,
    Precedes (Event.deliverWrite r) (Event.postRelease k) tr

theorem TraceInv.concat (h : TraceInv tr received releases) (ev : Event) :
    TraceInv (tr ++ [ev]) received releases where
  received r hr := List.mem_append_left _ (h.received r hr)
  posted k rel hk r hr := (h.posted k rel hk r hr).concat ev

/-- A write that arrives is recorded with the releases posted from then on. -/
theorem TraceInv.deliverWrite (h : TraceInv tr received releases) (r : Nat) :
    TraceInv (tr ++ [.deliverWrite r]) (received ++ [r]) releases where
  received r' hr := by
    rcases List.mem_append.mp hr with hr | hr
    · exact List.mem_append_left _ (h.received r' hr)
    · obtain rfl := List.mem_singleton.mp hr
      exact List.mem_append_right _ List.mem_cons_self
  posted k rel hk r' hr := (h.posted k rel hk r' hr).concat _

/-- A release is posted with the writes that have arrived. -/
theorem TraceInv.postRelease (h : TraceInv tr received releases) (k : Nat) :
    TraceInv (tr ++ [.postRelease k]) received
      (Function.update releases k (some ⟨received, .inFlight⟩)) where
  received r hr := List.mem_append_left _ (h.received r hr)
  posted j rel hj r hr := by
    rcases update_eq_some hj with ⟨rfl, rfl⟩ | ⟨_, hj⟩
    · -- the new release is the last event, and records only writes that arrived before it
      exact precedes_concat.mpr (Or.inr ⟨rfl, h.received r hr⟩)
    · exact (h.posted j rel hj r hr).concat _

/-- A release handler that moves on. -/
theorem TraceInv.goto (h : TraceInv tr received releases) (hk : releases k = some ⟨rcv, phase⟩)
    (ev : Event) :
    TraceInv (tr ++ [ev]) received (Function.update releases k (some ⟨rcv, phase'⟩)) where
  received r hr := List.mem_append_left _ (h.received r hr)
  posted j rel hj r hr := by
    rcases update_eq_some hj with ⟨rfl, rfl⟩ | ⟨_, hj⟩
    · exact (h.posted j _ hk r hr).concat ev
    · exact (h.posted j rel hj r hr).concat ev

theorem traceInv_initial : TraceInv [] initial.received initial.releases := ⟨nofun, nofun⟩

/-- **One step.** Only Astraea adds to what is recorded; the handlers pass it on. -/
theorem traceInv_step (h : TraceInv tr s.received s.releases) (hstep : Step s ev s') :
    TraceInv (tr ++ [ev]) s'.received s'.releases := by
  cases hstep with
  | deliverWrite       => exact h.deliverWrite _
  | postRelease        => exact h.postRelease _
  | copy _ hk          => exact h.goto hk _
  | scan _ hk          => exact h.goto hk _
  | popNothing _ hk    => exact h.goto hk _
  | pop _ hk           => exact h.goto hk _
  | ret _ hk           => exact h.goto hk _
  | respond _ hk       => exact h.goto hk _
  | finish _ hk        => exact h.goto hk _
  | _                  => exact h.concat _

/-! ## What a release can answer -/

/-- A release on its way covers the queue, and a release being handled covers what its handler holds. -/
structure LoggedInv (releases : Nat → Option Release) (myQueue : List Entry) : Prop where
  queued : ∀ k rel, releases k = some rel → rel.phase = .inFlight → ∀ e ∈ myQueue, e.id ∈ rel.received
  held   : ∀ k rel, releases k = some rel → ∀ e ∈ rel.phase.held, e.id ∈ rel.received

/-- A shorter queue is covered by the same releases. -/
theorem LoggedInv.mono {q : List Entry} (h : LoggedInv releases myQueue) (hq : ∀ e ∈ q, e ∈ myQueue) :
    LoggedInv releases q where
  queued k rel hk hp e he := h.queued k rel hk hp e (hq e he)
  held := h.held

/-- An entry may be pushed if every release on its way covers it. -/
theorem LoggedInv.push {e : Entry} (h : LoggedInv releases myQueue)
    (hc : ∀ k rel, releases k = some rel → rel.phase = .inFlight → e.id ∈ rel.received) :
    LoggedInv releases (myQueue ++ [e]) where
  queued k rel hk hp x hx := by
    rcases List.mem_append.mp hx with hx | hx
    · exact h.queued k rel hk hp x hx
    · obtain rfl := List.mem_singleton.mp hx
      exact hc k rel hk hp
  held := h.held

/-- A release may be posted if it covers the queue. -/
theorem LoggedInv.postRelease (h : LoggedInv releases myQueue)
    (hc : ∀ e ∈ myQueue, e.id ∈ received) :
    LoggedInv (Function.update releases k (some ⟨received, .inFlight⟩)) myQueue where
  queued j rel hj hp e he := by
    rcases update_eq_some hj with ⟨_, rfl⟩ | ⟨_, hj⟩
    · exact hc e he
    · exact h.queued j rel hj hp e he
  held j rel hj e he := by
    rcases update_eq_some hj with ⟨_, rfl⟩ | ⟨_, hj⟩
    · exact absurd he List.not_mem_nil
    · exact h.held j rel hj e he

/-- A handler that copies a queue its release covers holds entries its release covers. -/
theorem LoggedInv.goto (h : LoggedInv releases myQueue) (hp : phase' ≠ .inFlight)
    (hheld : ∀ e ∈ phase'.held, e.id ∈ rcv) :
    LoggedInv (Function.update releases k (some ⟨rcv, phase'⟩)) myQueue where
  queued j rel hj hpj e he := by
    rcases update_eq_some hj with ⟨_, rfl⟩ | ⟨_, hj⟩
    · exact absurd hpj hp
    · exact h.queued j rel hj hpj e he
  held j rel hj e he := by
    rcases update_eq_some hj with ⟨_, rfl⟩ | ⟨_, hj⟩
    · exact hheld e he
    · exact h.held j rel hj e he

theorem loggedInv_initial : LoggedInv initial.releases initial.myQueue := ⟨nofun, nofun⟩

/-- **One step.** `LoggedFirst` speaks of the two steps that could break the invariant: the push of an entry and
    the post of a release. -/
theorem loggedInv_step (hinv : Inv s) (h : LoggedInv s.releases s.myQueue)
    (hc : LoggedFirst s ev) (hstep : Step s ev s') : LoggedInv s'.releases s'.myQueue := by
  cases hstep with
  | push _ hr he =>
      -- the entry is new to the releases on their way; those being handled do not see it
      refine h.push (fun k rel hk hp => ?_)
      rw [(hinv.call.built _ _ _ hr he).id]
      exact hc k (hinv.release.known k rel hk) rel hk hp
  | postRelease => exact h.postRelease hc
  | copy _ hk => exact h.goto Phase.noConfusion (h.queued _ _ hk rfl)
  | scan _ hk _ hout =>
      have hsub := (readLoop_sublist hout).2.trans (List.take_sublist _ _)
      exact h.goto Phase.noConfusion (fun e he => h.held _ _ hk e (hsub.subset he))
  | popNothing _ hk => exact h.goto Phase.noConfusion (h.held _ _ hk)
  | pop _ hk hq =>
      refine (h.mono (fun e he => ?_)).goto Phase.noConfusion (h.held _ _ hk)
      rw [hq]
      exact List.mem_cons_of_mem _ he
  | ret _ hk => exact h.goto Phase.noConfusion (h.held _ _ hk)
  | respond _ hk => exact h.goto Phase.noConfusion (h.held _ _ hk)
  | finish _ hk => exact h.goto Phase.noConfusion (h.held _ _ hk)
  | _ => exact h

/-! ## The guarantee -/

theorem traceInv_of_path {C : State → Event → Prop} (h : system.Path C tr s) :
    TraceInv tr s.received s.releases := by
  refine System.Path.invariant (P := fun tr s => TraceInv tr s.received s.releases) traceInv_initial ?_ h
  intro tr s ev s' _ ht _ hstep
  exact traceInv_step ht (step_cases hstep)

/-- **Every run** in which requests are logged in time. -/
theorem loggedInv_of_path (h : system.Path LoggedFirst tr s) : LoggedInv s.releases s.myQueue := by
  have hboth : Inv s ∧ LoggedInv s.releases s.myQueue := by
    refine System.Path.invariant_state (P := fun s => Inv s ∧ LoggedInv s.releases s.myQueue)
      ⟨inv_initial, loggedInv_initial⟩ ?_ h
    rintro s ev s' ⟨hinv, hl⟩ hc hstep
    exact ⟨inv_step hinv hstep, loggedInv_step hinv hl hc (step_cases hstep)⟩
  exact hboth.2

/-- **No response before logging**, in every run in which requests are logged in time: Astraea had received
    the write of an answered request before it posted the release the response was posted on. -/
theorem answered_logged {tr : List Event} {s : State} (h : system.Path LoggedFirst tr s)
    {resp : Response} (hr : resp ∈ s.posted) :
    Precedes (Event.deliverWrite resp.entry.id) (Event.postRelease resp.release) tr := by
  obtain ⟨rel, hrel, he⟩ := (inv_of_path h).release.mem_requests hr
  have hlogged := (loggedInv_of_path h).held _ rel hrel _ (mem_held_of_requests he)
  exact (traceInv_of_path h).posted _ rel hrel _ hlogged

/-- A read and a write of two clients, each pushed after Astraea has received it and before the release. -/
def readAndWrite : List Event :=
  [.startRead 0 (lit "SELECT") (lit "a"), .sendWrite 0, .startWrite 1 (lit "INSERT") (lit "b"),
   .sendWrite 1, .deliverWrite 0, .deliverWrite 1, .query 0 .noRows, .push 0, .stamp 1, .push 1,
   .postRelease 0, .copy 0, .scan 0 (Clock.held 0), .pop 0, .pop 0, .ret 0, .respond 0 0, .respond 0 1,
   .finish 0]

theorem answered_logged_readAndWrite : ∃ s resp, system.Path LoggedFirst readAndWrite s ∧
    resp ∈ s.posted ∧ Precedes (Event.deliverWrite 1) (Event.postRelease 0) readAndWrite := by
  obtain ⟨s, hs, hp⟩ := System.exists_path_of_runWhere system readAndWrite
    (fun s ev => decide (LoggedFirst s ev))
    (fun s => decide (⟨0, ⟨writeEntry (lit "INSERT") (lit "b") 0, 1⟩,
      answer (writeEntry (lit "INSERT") (lit "b") 0)⟩ ∈ s.posted))
    (fun _ _ h => of_decide_eq_true h) (by decide)
  have hr := of_decide_eq_true hp
  exact ⟨s, _, hs, hr, answered_logged hs hr⟩

/-! ## Without it -/

/-- The release for the first request is on its way when the second one, whose write has not even been
    sent, is pushed. -/
def overtaken : List Event :=
  [.startRead 0 (lit "SELECT") (lit "a"), .sendWrite 0, .deliverWrite 0, .query 0 .noRows, .push 0,
   .postRelease 0, .startRead 1 (lit "SELECT") (lit "b"), .query 1 .noRows, .push 1, .copy 0,
   .scan 0 (Clock.held 0), .pop 0, .pop 0, .ret 0, .respond 0 0, .respond 0 1]

/-- **A response before logging.** -/
theorem overtaken_unlogged : ∃ s, system.Path System.Any overtaken s ∧ ∃ resp ∈ s.posted,
    ¬ Precedes (Event.deliverWrite resp.entry.id) (Event.postRelease resp.release) overtaken := by
  obtain ⟨s, hs, hp⟩ := System.exists_path_of_run system overtaken
    (fun s => decide (⟨0, ⟨readEntry [] (lit "b") 0, 1⟩, answer (readEntry [] (lit "b") 0)⟩ ∈ s.posted))
    (by decide)
  refine ⟨s, hs, _, of_decide_eq_true hp, fun hprec => ?_⟩
  have hmem : Event.deliverWrite 1 ∈ overtaken := hprec.mem_left
  simp [overtaken] at hmem

end Protocol
end AstraeaGateway
