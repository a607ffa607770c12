import AstraeaGateway.Protocol.ExactlyOnce

/-!
# `Protocol.Drain` — does every request leave the queue?

A release drains what is queued when its handler copies the queue, and Astraea posts releases for writes,
not for pushes. So a request that is pushed when no release is to come any more stays in the queue
(`pushedTooLate`). `InTime` rules that out, and `drained` says that nothing else strands a request: once
nothing is in flight or running, the queue is empty and every request was answered.
-/

namespace AstraeaGateway
namespace Protocol

open Transition Gateway

variable {calls : Nat → Option Call} {releases : Nat → Option Release} {received rcv : List Nat}
variable {myQueue q : List Entry} {phase phase' : Phase} {c c' : Call} {e : Entry} {k m n r : Nat}
variable {s s' : State} {ev : Event} {tr : List Event}

/-! ## A release that is still to come -/

/-- Some write has not been received yet, and not been lost either. -/
def Unreceived (calls : Nat → Option Call) (n : Nat) : Prop :=
  ∃ r < n, ∃ c ∈ calls r, c.write = .unsent ∨ c.write = .inFlight

/-- Some write was received, and no release has been posted since. -/
def Unreleased (received : List Nat) (releases : Nat → Option Release) (m : Nat) : Prop :=
  ∃ r ∈ received, ∀ k < m, ∀ rel ∈ releases k, r ∉ rel.received

/-- Some release has been posted and its handler has not copied the queue yet. -/
def OnTheWay (releases : Nat → Option Release) (m : Nat) : Prop :=
  ∃ k < m, ∃ rel ∈ releases k, rel.phase = .inFlight

/-- Astraea is yet to post a release, or has posted one that is yet to be handled. -/
def ReleaseToCome (s : State) : Prop :=
  Unreceived s.calls s.nextCall ∨ Unreleased s.received s.releases s.nextRel ∨
    OnTheWay s.releases s.nextRel

/-- **Pushed in time.** A request is pushed only when a release is still to come. -/
def InTime (s : State) : Event → Prop
  | .push _ => ReleaseToCome s
  | _       => True

/-- **The others do their part**: every write arrives, and every query returns a result set. -/
def NoFault : Event → Prop
  | .loseWrite _     => False
  | .query _ outcome => outcome.hasResultSet = true
  | _                => True

instance (s : State) : Decidable (ReleaseToCome s) := inferInstanceAs (Decidable
  ((∃ r < s.nextCall, ∃ c ∈ s.calls r, c.write = .unsent ∨ c.write = .inFlight) ∨
    (∃ r ∈ s.received, ∀ k < s.nextRel, ∀ rel ∈ s.releases k, r ∉ rel.received) ∨
    ∃ k < s.nextRel, ∃ rel ∈ s.releases k, rel.phase = .inFlight))

instance (s : State) : (ev : Event) → Decidable (InTime s ev)
  | .push _ => inferInstanceAs (Decidable (ReleaseToCome s))
  | .tick _ | .startRead _ _ _ | .startWrite _ _ _ | .sendWrite _ | .loseWrite _ | .deliverWrite _
  | .query _ _ | .stamp _ | .postRelease _ | .copy _ | .scan _ _ | .pop _ | .ret _ | .respond _ _
  | .finish _ | .deliver _ => isTrue trivial

instance : (ev : Event) → Decidable (NoFault ev)
  | .loseWrite _ => isFalse id
  | .query _ outcome => inferInstanceAs (Decidable (outcome.hasResultSet = true))
  | .tick _ | .startRead _ _ _ | .startWrite _ _ _ | .sendWrite _ | .deliverWrite _ | .stamp _
  | .push _ | .postRelease _ | .copy _ | .scan _ _ | .pop _ | .ret _ | .respond _ _ | .finish _
  | .deliver _ => isTrue trivial

theorem Unreceived.start (hc : c.write = .unsent) :
    Unreceived (Function.update calls n (some c)) (n + 1) :=
  ⟨n, Nat.lt_succ_self n, c, Function.update_self .., Or.inl hc⟩

/-- A message that is still to be sent or delivered stays so as its request moves on. -/
theorem Unreceived.update (h : Unreceived calls n) (hc : calls r = some c)
    (hw : c.write = .unsent ∨ c.write = .inFlight → c'.write = .unsent ∨ c'.write = .inFlight) :
    Unreceived (Function.update calls r (some c')) n := by
  obtain ⟨j, hj, hx⟩ := h
  exact ⟨j, hj, update_keeps hc hw hx⟩

theorem Unreleased.goto (h : Unreleased received releases m) (hk : releases k = some ⟨rcv, phase⟩) :
    Unreleased received (Function.update releases k (some ⟨rcv, phase'⟩)) m := by
  obtain ⟨r, hr, hnone⟩ := h
  refine ⟨r, hr, fun j hj rel hrel => ?_⟩
  rcases update_eq_some hrel with ⟨rfl, rfl⟩ | ⟨_, hrel⟩
  · exact hnone j hj ⟨rcv, phase⟩ hk
  · exact hnone j hj rel hrel

theorem OnTheWay.goto (h : OnTheWay releases m) (hk : releases k = some ⟨rcv, phase⟩)
    (hp : phase ≠ .inFlight) : OnTheWay (Function.update releases k (some ⟨rcv, phase'⟩)) m := by
  obtain ⟨j, hj, hrel⟩ := h
  -- the handler that moves is not the one on the way
  exact ⟨j, hj, update_keeps hk (fun hph => absurd hph hp) hrel⟩

/-! ## What Astraea has received -/

structure WriteInv (calls : Nat → Option Call) (received : List Nat) (releases : Nat → Option Release) :
    Prop where
  arrived  : ∀ r ∈ received, ∃ c, calls r = some c ∧ c.write = .received
  recorded : ∀ k rel, releases k = some rel → ∀ r ∈ rel.received, r ∈ received

theorem WriteInv.start (h : WriteInv calls received releases) (hfresh : calls n = none) :
    WriteInv (Function.update calls n (some c)) received releases where
  arrived r hr := by
    obtain ⟨x, hx, hw⟩ := h.arrived r hr
    exact ⟨x, update_of_fresh hfresh hx c, hw⟩
  recorded := h.recorded

/-- A request that moves on loses no message. -/
theorem WriteInv.update (h : WriteInv calls received releases) (hc : calls r = some c)
    (hw : c.write = .received → c'.write = .received) :
    WriteInv (Function.update calls r (some c')) received releases where
  arrived j hj := update_keeps hc hw (h.arrived j hj)
  recorded := h.recorded

/-- A message that is delivered is recorded with Astraea. -/
theorem WriteInv.deliver (h : WriteInv calls received releases) (hc : calls r = some c) :
    WriteInv (Function.update calls r (some { c with write := .received })) (received ++ [r]) releases where
  arrived j hj := by
    rcases List.mem_append.mp hj with hj | hj
    · exact (h.update hc (fun _ => rfl)).arrived j hj
    · obtain rfl := List.mem_singleton.mp hj
      exact ⟨_, Function.update_self .., rfl⟩
  recorded k rel hk j hj := List.mem_append_left _ (h.recorded k rel hk j hj)

theorem WriteInv.goto (h : WriteInv calls received releases) (hsub : ∀ r ∈ rcv, r ∈ received) :
    WriteInv calls received (Function.update releases k (some ⟨rcv, phase⟩)) where
  arrived := h.arrived
  recorded j rel hj r hr := by
    rcases update_eq_some hj with ⟨_, rfl⟩ | ⟨_, hj⟩
    · exact hsub r hr
    · exact h.recorded j rel hj r hr

/-- **One step.** Only `deliverWrite` adds to what Astraea has received. -/
theorem writeInv_step (hinv : Inv s) (h : WriteInv s.calls s.received s.releases)
    (hstep : Step s ev s') : WriteInv s'.calls s'.received s'.releases := by
  cases hstep with
  | startRead           => exact h.start hinv.call.fresh
  | startWrite          => exact h.start hinv.call.fresh
  | sendWrite _ hc hw   => exact h.update hc (by rw [hw]; exact WriteMsg.noConfusion)
  | loseWrite hc hw     => exact h.update hc (by rw [hw]; exact WriteMsg.noConfusion)
  | deliverWrite hc     => exact h.deliver hc
  | queryOk _ hc        => exact h.update hc id
  | stamp _ hc          => exact h.update hc id
  | push _ hc           => exact h.update hc id
  | postRelease         => exact h.goto (fun _ hr => hr)
  | copy _ hk           => exact h.goto (h.recorded _ _ hk)
  | scan _ hk           => exact h.goto (h.recorded _ _ hk)
  | popNothing _ hk     => exact h.goto (h.recorded _ _ hk)
  | pop _ hk            => exact h.goto (h.recorded _ _ hk)
  | ret _ hk            => exact h.goto (h.recorded _ _ hk)
  | respond _ hk        => exact h.goto (h.recorded _ _ hk)
  | finish _ hk         => exact h.goto (h.recorded _ _ hk)
  | _                   => exact h

/-! ## The queue is being emptied, or a release is to come -/

/-- The handler will pop everything that is queued. -/
def Phase.takesAll (myQueue : List Entry) : Phase → Prop
  | .copied duplicate _  => duplicate = myQueue
  | .popping _ countPops => countPops = myQueue.length
  | _                    => False

def Draining (releases : Nat → Option Release) (myQueue : List Entry) : Prop :=
  myQueue = [] ∨ ∃ k rel, releases k = some rel ∧ rel.phase.takesAll myQueue

/-- A move of handler `k` that takes the queue along. -/
theorem Draining.goto (h : Draining releases myQueue) (hk : releases k = some ⟨rcv, phase⟩)
    (hall : phase.takesAll myQueue → myQueue = [] ∨ phase'.takesAll myQueue) :
    Draining (Function.update releases k (some ⟨rcv, phase'⟩)) myQueue := by
  rcases h with hnil | ⟨j, rel, hj, ht⟩
  · exact Or.inl hnil
  · by_cases hjk : j = k
    · subst hjk
      obtain rfl := Option.some.inj (hk.symm.trans hj)
      exact (hall ht).imp id (fun ht' => ⟨j, _, Function.update_self .., ht'⟩)
    · exact Or.inr ⟨j, rel, by rw [Function.update_of_ne hjk]; exact hj, ht⟩

theorem readsOut_of_takesAll (hne : myQueue ≠ []) (ht : phase.takesAll myQueue) :
    phase.readsOut = true := by
  cases phase with
  | copied duplicate since =>
      obtain rfl : duplicate = myQueue := ht
      cases duplicate with
      | nil => exact absurd rfl hne
      | cons => rfl
  | popping requests n =>
      obtain rfl : n = myQueue.length := ht
      cases myQueue with
      | nil => exact absurd rfl hne
      | cons => rfl
  | _ => cases ht

/-- A pop by the handler that takes the queue. -/
theorem Draining.pop {left : Nat} {requests : List Entry} (h : Draining releases (e :: q))
    (hw : Window releases (e :: q) left) (hk : releases k = some ⟨rcv, .popping requests (n + 1)⟩) :
    Draining (Function.update releases k (some ⟨rcv, .popping requests n⟩)) q := by
  rcases h with hnil | ⟨j, rel, hj, ht⟩
  · cases hnil
  · -- both handlers are reading out, so they are one
    obtain rfl := hw.one j k rel _ hj hk (readsOut_of_takesAll (List.cons_ne_nil e q) ht) rfl
    obtain rfl := Option.some.inj (hk.symm.trans hj)
    exact Or.inr ⟨j, _, Function.update_self .., Nat.succ.inj ht⟩

/-- Nothing is stranded: what is queued is being taken, or a release is still to come. -/
def DrainInv (s : State) : Prop := ReleaseToCome s ∨ Draining s.releases s.myQueue

/-- A move of a release handler that is past its copy. -/
theorem ReleaseToCome.goto (h : ReleaseToCome s) (hk : s.releases k = some ⟨rcv, phase⟩)
    (hp : phase ≠ .inFlight) : ReleaseToCome (s.goto k rcv phase') := by
  rcases h with h | h | h
  · exact Or.inl h
  · exact Or.inr (Or.inl (h.goto hk))
  · exact Or.inr (Or.inr (h.goto hk hp))

theorem DrainInv.goto (h : DrainInv s) (hk : s.releases k = some ⟨rcv, phase⟩) (hp : phase ≠ .inFlight)
    (hall : phase.takesAll s.myQueue → s.myQueue = [] ∨ phase'.takesAll s.myQueue) :
    DrainInv (s.goto k rcv phase') :=
  h.imp (fun htc => htc.goto hk hp) (fun hd => hd.goto hk hall)

/-- A request moves on and its write does not. -/
theorem ReleaseToCome.setCall (h : ReleaseToCome s) (hc : s.calls r = some c)
    (hw : c'.write = c.write) : ReleaseToCome (s.setCall r c') :=
  h.imp (fun hu => hu.update hc (by rw [hw]; exact id)) id

/-- **One step.** A push is in time for a release to come, and a release takes the whole queue. -/
theorem drainInv_step {left : Nat} (hinv : Inv s) (hwin : Window s.releases s.myQueue left)
    (hwr : WriteInv s.calls s.received s.releases) (h : DrainInv s) (hno : NoFault ev)
    (hfresh : FreshScan s ev) (hin : InTime s ev) (hstep : Step s ev s') : DrainInv s' := by
  cases hstep with
  | startRead => exact Or.inl (Or.inl (Unreceived.start rfl))
  | startWrite => exact Or.inl (Or.inl (Unreceived.start rfl))
  | sendWrite _ hc =>
      exact h.imp (fun htc => htc.imp (fun hu => hu.update hc (fun _ => Or.inr rfl)) id) id
  | loseWrite => exact hno.elim
  | @deliverWrite r c hc hw =>
      refine Or.inl (Or.inr (Or.inl ⟨r, List.mem_append_right _ List.mem_cons_self, ?_⟩))
      -- no release has recorded `r`: its write was still in flight
      intro k _ rel hk hr
      obtain ⟨x, hx, hwx⟩ := hwr.arrived r (hwr.recorded k rel hk r hr)
      obtain rfl := Option.some.inj (hc.symm.trans hx)
      rw [hw] at hwx
      cases hwx
  | queryOk _ hc => exact h.imp (fun htc => htc.setCall hc rfl) id
  | stamp _ hc => exact h.imp (fun htc => htc.setCall hc rfl) id
  | push _ hc => exact Or.inl (ReleaseToCome.setCall hin hc rfl)
  | postRelease =>
      exact Or.inl (Or.inr (Or.inr ⟨s.nextRel, Nat.lt_succ_self _, _, Function.update_self .., rfl⟩))
  | copy => exact Or.inr (Or.inr ⟨_, _, Function.update_self .., rfl⟩)
  | scan _ hk _ hout =>
      refine h.goto hk Phase.noConfusion (fun ht => Or.inr ?_)
      have hfull := scan_fresh (fun e he => hinv.sent e (hinv.release.held _ _ hk e he))
        (hfresh _ hk) hout
      exact hfull.2.trans (congrArg List.length ht)
  | popNothing _ hk hq => exact absurd hq (hwin.not_empty hk)
  | pop _ hk hq =>
      rcases h with htc | hd
      · exact Or.inl (htc.goto hk Phase.noConfusion)
      · rw [hq] at hd hwin
        exact Or.inr (hd.pop hwin hk)
  | ret _ hk =>
      -- a handler that takes everything and has no pops left has emptied the queue
      exact h.goto hk Phase.noConfusion (fun ht => Or.inl (List.eq_nil_of_length_eq_zero ht.symm))
  | respond _ hk => exact h.goto hk Phase.noConfusion False.elim
  | finish _ hk => exact h.goto hk Phase.noConfusion False.elim
  | _ => exact h

/-! ## At rest -/

/-- No message is in flight, and no handler and no database task is running. -/
structure AtRest (s : State) : Prop where
  calls    : ∀ r < s.nextCall, ∀ c ∈ s.calls r,
    c.write ≠ .unsent ∧ c.write ≠ .inFlight ∧ c.pushing = .pushed
  releases : ∀ k < s.nextRel, ∀ rel ∈ s.releases k, rel.phase ≠ .inFlight ∧ rel.phase.active = false
  inFlight : s.inFlight = []

/-- Astraea has posted a release after every write it received. -/
def Released (s : State) : Prop :=
  ∀ r ∈ s.received, ∃ k < s.nextRel, ∃ rel ∈ s.releases k, r ∈ rel.received

instance (s : State) : Decidable (AtRest s) :=
  decidable_of_iff
    ((∀ r < s.nextCall, ∀ c ∈ s.calls r,
        c.write ≠ .unsent ∧ c.write ≠ .inFlight ∧ c.pushing = .pushed) ∧
      (∀ k < s.nextRel, ∀ rel ∈ s.releases k, rel.phase ≠ .inFlight ∧ rel.phase.active = false) ∧
      s.inFlight = [])
    ⟨fun ⟨hc, hr, hf⟩ => ⟨hc, hr, hf⟩, fun h => ⟨h.calls, h.releases, h.inFlight⟩⟩

instance (s : State) : Decidable (Released s) := inferInstanceAs (Decidable
  (∀ r ∈ s.received, ∃ k < s.nextRel, ∃ rel ∈ s.releases k, r ∈ rel.received))

/-- The services do their part, releases are handled one at a time, and no queued request is outdated. -/
def Serviced (s : State) (ev : Event) : Prop := NoFault ev ∧ OneAtATime s ev ∧ FreshScan s ev

instance (s : State) (ev : Event) : Decidable (Serviced s ev) :=
  inferInstanceAs (Decidable (NoFault ev ∧ OneAtATime s ev ∧ FreshScan s ev))

theorem drainInv_initial : DrainInv initial := Or.inr (Or.inl rfl)

theorem writeInv_initial : WriteInv initial.calls initial.received initial.releases := ⟨nofun, nofun⟩

/-- **Every run** that meets the premises. -/
theorem drainInv_of_path (h : system.Path (fun s ev => Serviced s ev ∧ InTime s ev) tr s) :
    DrainInv s := by
  have hall : Inv s ∧ HandedInv s ∧ WriteInv s.calls s.received s.releases ∧ DrainInv s := by
    refine System.Path.invariant_state
      (P := fun s => Inv s ∧ HandedInv s ∧ WriteInv s.calls s.received s.releases ∧ DrainInv s)
      ⟨inv_initial, handedInv_initial, writeInv_initial, drainInv_initial⟩ ?_ h
    rintro s ev s' ⟨hinv, hh, hwr, hd⟩ ⟨⟨hno, hone, hfresh⟩, hin⟩ hstep
    have hcases := step_cases hstep
    refine ⟨inv_step hinv hstep, handedInv_step hinv hh hone.exclusive hfresh hcases,
      writeInv_step hinv hwr hcases, ?_⟩
    obtain ⟨left, _, hwin, _, _⟩ := hh
    exact drainInv_step hinv hwin hwr hd hno hfresh hin hcases
  exact hall.2.2.2

/-- Where all is at rest, no release is to come any more, -/
theorem AtRest.not_to_come (h : AtRest s) (hrel : Released s) : ¬ ReleaseToCome s := by
  rintro (⟨r, hr, c, hc, hw⟩ | ⟨r, hr, hnone⟩ | ⟨k, hk, rel, hr, hp⟩)
  · obtain ⟨hun, hin, _⟩ := h.calls r hr c hc
    exact hw.elim hun hin
  · obtain ⟨k, hk, rel, hkrel, hmem⟩ := hrel r hr
    exact hnone k hk rel hkrel hmem
  · exact (h.releases k hk rel hr).1 hp

/-- so nothing is left in the queue. -/
theorem AtRest.empty (h : AtRest s) (hinv : Inv s) (hrel : Released s) (hd : DrainInv s) :
    s.myQueue = [] := by
  rcases hd with htc | hnil | ⟨k, rel, hk, ht⟩
  · exact absurd htc (h.not_to_come hrel)
  · exact hnil
  · -- nobody is active, so nobody is about to take anything
    have hidle := (h.releases k (hinv.release.known k rel hk) rel hk).2
    obtain ⟨rcv, phase⟩ := rel
    cases phase with
    | copied | popping => cases hidle
    | _ => exact ht.elim

/-- A handler that is done has answered its whole list. -/
theorem AtRest.answered (h : AtRest s) (hinv : Inv s) {rel : Release} (hk : s.releases k = some rel)
    (he : e ∈ rel.phase.requests) : ∃ resp ∈ s.delivered, resp.entry = e := by
  obtain ⟨hfl, hidle⟩ := h.releases k (hinv.release.known k rel hk) rel hk
  have hacc := hinv.release.accounts k rel hk
  have hnil : rel.phase.todo = [] := by
    obtain ⟨rcv, phase⟩ := rel
    cases phase with
    | popping | responding => cases hidle
    | _ => rfl
  rw [hnil, List.append_nil] at hacc
  rw [← hacc] at he
  obtain ⟨resp, hr, _, rfl⟩ := mem_answered.mp he
  rcases hinv.deliver.either resp hr with hfly | hdel
  · rw [h.inFlight] at hfly
    exact absurd hfly List.not_mem_nil
  · exact ⟨resp, hdel, rfl⟩

/-- **No request is stranded**, in every run in which requests are pushed in time: once everything is at
    rest and Astraea has posted its releases, the queue is empty and every request was answered. -/
theorem drained {tr : List Event} {s : State}
    (h : system.Path (fun s ev => Serviced s ev ∧ InTime s ev) tr s) (hrest : AtRest s)
    (hrel : Released s) : s.myQueue = [] ∧ ∀ r < s.nextCall, ∃ resp ∈ s.delivered, resp.entry.id = r := by
  have hinv := inv_of_path h
  have hempty := hrest.empty hinv hrel (drainInv_of_path h)
  refine ⟨hempty, fun r hr => ?_⟩
  -- `r` was pushed, so it was popped, handed to a handler, answered, and delivered
  obtain ⟨c, hc⟩ := hinv.call.started r hr
  obtain ⟨e, he, hid⟩ := hinv.push.complete r c hc (hrest.calls r hr c hc).2.2
  obtain ⟨left, order, hwin, hh, hs⟩ := handedInv_of_path
    (h.mono (fun _ _ hc => ⟨hc.1.2.1.exclusive, hc.1.2.2⟩))
  have hpopped : e ∈ s.popped := by
    rwa [pushes_of_empty hempty] at he
  obtain ⟨k, rel, hk, hmem⟩ := handed_of_popped hwin hh hs hpopped
  obtain ⟨resp, hresp, rfl⟩ := hrest.answered hinv hk hmem
  exact ⟨resp, hresp, hid⟩

/-- The response to the read request of client `a`, on the first release. -/
def answerOfA : Response := ⟨0, ⟨readEntry [] (lit "a") 0, 0⟩, answer (readEntry [] (lit "a") 0)⟩

/-- One read request, pushed before its write arrives, up to the client's receipt of the response. -/
def pushedInTime : List Event :=
  [.startRead 0 (lit "SELECT") (lit "a"), .sendWrite 0, .query 0 .noRows, .push 0, .deliverWrite 0,
   .postRelease 0, .copy 0, .scan 0 (Clock.held 0), .pop 0, .ret 0, .respond 0 0, .finish 0,
   .deliver answerOfA]

theorem drained_pushedInTime : ∃ s, system.Path (fun s ev => Serviced s ev ∧ InTime s ev) pushedInTime s ∧
    0 < s.nextCall ∧ s.myQueue = [] ∧ ∀ r < s.nextCall, ∃ resp ∈ s.delivered, resp.entry.id = r := by
  obtain ⟨s, hs, hp⟩ := System.exists_path_of_runWhere system pushedInTime
    (fun s ev => decide (Serviced s ev ∧ InTime s ev))
    (fun s => decide (0 < s.nextCall ∧ AtRest s ∧ Released s))
    (fun _ _ h => of_decide_eq_true h) (by decide)
  obtain ⟨hcalls, hrest, hrel⟩ := of_decide_eq_true hp
  exact ⟨s, hs, hcalls, drained hs hrest hrel⟩

/-! ## Pushed too late -/

/-- The write arrives and its release is handled while the database task still waits for its query. -/
def pushedTooLate : List Event :=
  [.startRead 0 (lit "SELECT") (lit "a"), .sendWrite 0, .deliverWrite 0, .postRelease 0, .copy 0,
   .scan 0 (Clock.held 0), .ret 0, .finish 0, .query 0 .noRows, .push 0]

/-- **A request is stranded**: everything is at rest, every write was released, and it is still queued. -/
theorem pushedTooLate_stranded : ∃ s, system.Path Serviced pushedTooLate s ∧ AtRest s ∧ Released s ∧
    s.myQueue ≠ [] := by
  obtain ⟨s, hs, hp⟩ := System.exists_path_of_runWhere system pushedTooLate
    (fun s ev => decide (Serviced s ev))
    (fun s => decide (AtRest s ∧ Released s ∧ s.myQueue.length = 1))
    (fun _ _ h => of_decide_eq_true h) (by decide)
  obtain ⟨hrest, hrel, hlen⟩ := of_decide_eq_true hp
  refine ⟨s, hs, hrest, hrel, ?_⟩
  rintro hnil
  rw [hnil] at hlen
  cases hlen

end Protocol
end AstraeaGateway
