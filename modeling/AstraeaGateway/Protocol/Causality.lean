import AstraeaGateway.Protocol.Invariant

/-!
# `Protocol.Causality` — where a response comes from

Whatever the schedule, a response that reaches a client has its whole history in the trace: a handler was
started for that client, a read was executed or a write sent to Astraea, the entry was pushed, Astraea had
received some write and posted a release, the handler of that release copied the queue with the entry in it,
the entry was popped, and the handler posted the response (`delivered_caused`). Nothing is answered out of
thin air, and no client gets the response to another client's request.

Who pops an entry need not be who answers it: read-outs that overlap pop each other's entries. What holds of
all runs is that by the time a handler has done its pops, every entry on its list has been popped by somebody
since it copied the queue (`Due`).
-/

namespace AstraeaGateway
namespace Protocol

open Transition Gateway

/-- The event that started a request. -/
def Call.startedBy (r : Nat) (c : Call) : Event :=
  if c.readRequest then .startRead r c.request c.ipClient else .startWrite r c.request c.ipClient

variable {calls : Nat → Option Call} {releases : Nat → Option Release} {received rcv : List Nat}
variable {pushes : List Entry} {posted delivered : List Response} {c c' : Call} {e : Entry}
variable {n m r k : Nat} {phase phase' : Phase} {s s' : State} {ev : Event} {tr : List Event}
variable {resp : Response}

/-- What a handler does for a request before the entry is built: it executes a read at the target database,
    or sends a write to Astraea. -/
inductive HandledBy (r : Nat) (c : Call) : Event → Prop
  | executed {outcome : Outcome} (hread : c.readRequest = true) (haccepted : outcome.accepted = true) :
      HandledBy r c (.query r outcome)
  | sent (hwrite : c.readRequest = false) : HandledBy r c (.sendWrite r)

/-- The start of a request is read off what the handler was called with, which never changes. -/
theorem startedBy_eq (hread : c'.readRequest = c.readRequest) (hreq : c'.request = c.request)
    (hclient : c'.ipClient = c.ipClient) (r : Nat) : c'.startedBy r = c.startedBy r := by
  unfold Call.startedBy
  rw [hread, hreq, hclient]

theorem HandledBy.of_read (h : HandledBy r c ev) (hread : c'.readRequest = c.readRequest) :
    HandledBy r c' ev := by
  cases h with
  | executed hr hacc => exact HandledBy.executed (hread.trans hr) hacc
  | sent hw => exact HandledBy.sent (hread.trans hw)

/-! ## Requests -/

/-- Somewhere behind its start, request `r` was handled. -/
def Handled (tr : List Event) (r : Nat) (c : Call) : Prop :=
  ∃ ev, HandledBy r c ev ∧ Precedes (c.startedBy r) ev tr

/-- The same, and the entry pushed behind that. -/
def PushedInTurn (tr : List Event) (r : Nat) (c : Call) : Prop :=
  ∃ ev, HandledBy r c ev ∧ Precedes (c.startedBy r) ev tr ∧ Precedes ev (.push r) tr

theorem Handled.concat (h : Handled tr r c) (ev : Event) : Handled (tr ++ [ev]) r c := by
  obtain ⟨x, hx, hprec⟩ := h
  exact ⟨x, hx, hprec.concat ev⟩

theorem PushedInTurn.concat (h : PushedInTurn tr r c) (ev : Event) : PushedInTurn (tr ++ [ev]) r c := by
  obtain ⟨x, hx, hprec, hpush⟩ := h
  exact ⟨x, hx, hprec.concat ev, hpush.concat ev⟩

/-- A request that was handled pushes its entry. -/
theorem Handled.push (h : Handled tr r c) : PushedInTurn (tr ++ [.push r]) r c := by
  obtain ⟨x, hx, hprec⟩ := h
  exact ⟨x, hx, hprec.concat _, precedes_last hprec.mem_right _⟩

theorem Handled.of_call (h : Handled tr r c) (hread : c'.readRequest = c.readRequest)
    (hstart : c'.startedBy r = c.startedBy r) : Handled tr r c' := by
  obtain ⟨x, hx, hprec⟩ := h
  exact ⟨x, hx.of_read hread, by rw [hstart]; exact hprec⟩

/-- Both are about what the handler was called with, so a request that moves on keeps them. -/
theorem PushedInTurn.of_call (h : PushedInTurn tr r c) (hread : c'.readRequest = c.readRequest)
    (hstart : c'.startedBy r = c.startedBy r) : PushedInTurn tr r c' := by
  obtain ⟨x, hx, hprec, hpush⟩ := h
  exact ⟨x, hx.of_read hread, by rw [hstart]; exact hprec, hpush⟩

/-- Each request was started; `write(r)` was sent after that; an entry is built for a request that was
    handled, and pushed after that. -/
structure PushCause (tr : List Event) (calls : Nat → Option Call) (pushes : List Entry) : Prop where
  started : ∀ r c, calls r = some c → c.startedBy r ∈ tr
  sent    : ∀ r c, calls r = some c → c.write ≠ .unsent → Precedes (c.startedBy r) (.sendWrite r) tr
  built   : ∀ r c, calls r = some c → c.pushing ≠ .running → Handled tr r c
  pushed  : ∀ e ∈ pushes, ∃ c, calls e.id = some c ∧ PushedInTurn tr e.id c

theorem PushCause.concat (h : PushCause tr calls pushes) (ev : Event) :
    PushCause (tr ++ [ev]) calls pushes where
  started r c hc := List.mem_append_left _ (h.started r c hc)
  sent r c hc hw := (h.sent r c hc hw).concat ev
  built r c hc hp := (h.built r c hc hp).concat ev
  pushed e he := by
    obtain ⟨c, hc, hturn⟩ := h.pushed e he
    exact ⟨c, hc, hturn.concat ev⟩

/-- A new request has neither sent nor built anything. -/
theorem PushCause.start (h : PushCause tr calls pushes) (hfresh : calls n = none) {c : Call}
    (hw : c.write = .unsent) (hp : c.pushing = .running) :
    PushCause (tr ++ [c.startedBy n]) (Function.update calls n (some c)) pushes where
  started r x hx := by
    rcases update_eq_some hx with ⟨rfl, rfl⟩ | ⟨_, hx⟩
    · exact List.mem_append_right _ List.mem_cons_self
    · exact List.mem_append_left _ (h.started r x hx)
  sent r x hx hwx := by
    rcases update_eq_some hx with ⟨rfl, rfl⟩ | ⟨_, hx⟩
    · exact absurd hw hwx
    · exact (h.sent r x hx hwx).concat _
  built r x hx hpx := by
    rcases update_eq_some hx with ⟨rfl, rfl⟩ | ⟨_, hx⟩
    · exact absurd hp hpx
    · exact (h.built r x hx hpx).concat _
  pushed e he := by
    obtain ⟨x, hx, hturn⟩ := h.pushed e he
    exact ⟨x, update_of_fresh hfresh hx c, hturn.concat _⟩

/-- A request that moves on was started as before; what it has sent or built since is in the trace. -/
theorem PushCause.update (h : PushCause tr calls pushes) (hc : calls r = some c)
    (hread : c'.readRequest = c.readRequest) (hstart : c'.startedBy r = c.startedBy r)
    (hw : c'.write ≠ .unsent → Precedes (c.startedBy r) (.sendWrite r) (tr ++ [ev]))
    (hp : c'.pushing ≠ .running → Handled (tr ++ [ev]) r c) :
    PushCause (tr ++ [ev]) (Function.update calls r (some c')) pushes where
  started j x hx := by
    rcases update_eq_some hx with ⟨rfl, rfl⟩ | ⟨_, hx⟩
    · rw [hstart]
      exact List.mem_append_left _ (h.started j c hc)
    · exact List.mem_append_left _ (h.started j x hx)
  sent j x hx hwx := by
    rcases update_eq_some hx with ⟨rfl, rfl⟩ | ⟨_, hx⟩
    · rw [hstart]
      exact hw hwx
    · exact (h.sent j x hx hwx).concat ev
  built j x hx hpx := by
    rcases update_eq_some hx with ⟨rfl, rfl⟩ | ⟨_, hx⟩
    · exact (hp hpx).of_call hread hstart
    · exact (h.built j x hx hpx).concat ev
  pushed e he := by
    obtain ⟨x, hx, hturn⟩ := h.pushed e he
    by_cases hid : e.id = r
    · subst hid
      obtain rfl := Option.some.inj (hc.symm.trans hx)
      exact ⟨c', Function.update_self .., (hturn.concat ev).of_call hread hstart⟩
    · exact ⟨x, by rw [Function.update_of_ne hid]; exact hx, hturn.concat ev⟩

/-- The message of a request moves on. -/
theorem PushCause.setWrite (h : PushCause tr calls pushes) (hc : calls r = some c) (write : WriteMsg)
    (hsent : Precedes (c.startedBy r) (.sendWrite r) (tr ++ [ev])) :
    PushCause (tr ++ [ev]) (Function.update calls r (some { c with write := write })) pushes :=
  h.update hc rfl (startedBy_eq rfl rfl rfl r) (fun _ => hsent) (fun hp => (h.built r c hc hp).concat ev)

/-- A request that was handled builds its entry, or pushes it. -/
theorem PushCause.setPushing (h : PushCause tr calls pushes) (hc : calls r = some c)
    (pushing : Pushing) (hhandled : Handled (tr ++ [ev]) r c) :
    PushCause (tr ++ [ev]) (Function.update calls r (some { c with pushing := pushing })) pushes :=
  h.update hc rfl (startedBy_eq rfl rfl rfl r) (fun hw => (h.sent r c hc hw).concat ev) (fun _ => hhandled)

/-- The push comes after everything the request did before it. -/
theorem PushCause.push (h : PushCause tr calls pushes) (hc : calls r = some c) (hid : e.id = r)
    (hready : c.pushing = .ready e) :
    PushCause (tr ++ [.push r]) (Function.update calls r (some { c with pushing := .pushed }))
      (pushes ++ [e]) := by
  have hbuilt : Handled tr r c := h.built r c hc (by rw [hready]; exact Pushing.noConfusion)
  have hmoved : PushCause (tr ++ [.push r]) _ pushes := h.setPushing hc .pushed (hbuilt.concat _)
  refine ⟨hmoved.started, hmoved.sent, hmoved.built, fun x hx => ?_⟩
  rcases List.mem_append.mp hx with hx | hx
  · exact hmoved.pushed x hx
  · obtain rfl := List.mem_singleton.mp hx
    subst hid
    exact ⟨_, Function.update_self .., hbuilt.push.of_call rfl (startedBy_eq rfl rfl rfl _)⟩

/-- **One step.** A read is executed before its entry is built, and a write is sent before that. -/
theorem pushCause_step (hcall : CallInv s.calls s.nextCall) (h : PushCause tr s.calls s.pushes)
    (hstep : Step s ev s') : PushCause (tr ++ [ev]) s'.calls s'.pushes := by
  cases hstep with
  | @startRead request ipClient _ =>
      exact h.start (c := ⟨true, request, ipClient, .unsent, .running⟩) hcall.fresh rfl rfl
  | @startWrite request ipClient _ =>
      exact h.start (c := ⟨false, request, ipClient, .unsent, .running⟩) hcall.fresh rfl rfl
  | sendWrite _ hc      => exact h.setWrite hc _ (precedes_last (h.started _ _ hc) _)
  | loseWrite hc hw     =>
      exact h.setWrite hc _ ((h.sent _ _ hc (by rw [hw]; exact WriteMsg.noConfusion)).concat _)
  | deliverWrite hc hw  =>
      exact h.setWrite hc _ ((h.sent _ _ hc (by rw [hw]; exact WriteMsg.noConfusion)).concat _)
  | queryOk _ hc hread _ hq =>
      have haccepted := accepted_of_queryTarget hq
      exact h.setPushing hc _ ⟨_, HandledBy.executed hread haccepted, precedes_last (h.started _ _ hc) _⟩
  | stamp _ hc hwrite _ hw =>
      exact h.setPushing hc _ ⟨_, HandledBy.sent hwrite, (h.sent _ _ hc hw).concat _⟩
  | push _ hc he        =>
      show PushCause _ _ (s.popped ++ (s.myQueue ++ [_]))
      rw [pushes_push]
      exact h.push hc (hcall.built _ _ _ hc he).id he
  | pop _ _ hq          =>
      show PushCause _ _ (s.popped ++ [_] ++ _)
      rw [pushes_pop hq]
      exact h.concat _
  | _                   => exact h.concat _

/-! ## Releases -/

/-- Each release was posted after some write arrived, and its handler copied the queue after that and after
    the pushes of what it holds. -/
structure CopyCause (tr : List Event) (received : List Nat) (releases : Nat → Option Release) : Prop where
  arrived : ∀ r ∈ received, Event.deliverWrite r ∈ tr
  posted  : ∀ k rel, releases k = some rel →
    ∃ r, Precedes (Event.deliverWrite r) (Event.postRelease k) tr
  copied  : ∀ k rel, releases k = some rel → rel.phase ≠ .inFlight →
    Precedes (Event.postRelease k) (Event.copy k) tr
  held    : ∀ k rel, releases k = some rel → ∀ e ∈ rel.phase.held,
    Precedes (Event.push e.id) (Event.copy k) tr

theorem CopyCause.concat (h : CopyCause tr received releases) (ev : Event) :
    CopyCause (tr ++ [ev]) received releases where
  arrived r hr := List.mem_append_left _ (h.arrived r hr)
  posted k rel hk := by
    obtain ⟨r, hprec⟩ := h.posted k rel hk
    exact ⟨r, hprec.concat ev⟩
  copied k rel hk hp := (h.copied k rel hk hp).concat ev
  held k rel hk e he := (h.held k rel hk e he).concat ev

/-- A write arrives, and no release changes. -/
theorem CopyCause.deliverWrite (h : CopyCause tr received releases) (r : Nat) :
    CopyCause (tr ++ [.deliverWrite r]) (received ++ [r]) releases where
  arrived j hj := by
    rcases List.mem_append.mp hj with hj | hj
    · exact List.mem_append_left _ (h.arrived j hj)
    · obtain rfl := List.mem_singleton.mp hj
      exact List.mem_append_right _ List.mem_cons_self
  posted := (h.concat _).posted
  copied := (h.concat _).copied
  held := (h.concat _).held

/-- Astraea posts a release only if some write has arrived. -/
theorem CopyCause.postRelease (h : CopyCause tr received releases) (hne : received ≠ []) (k : Nat) :
    CopyCause (tr ++ [.postRelease k]) received
      (Function.update releases k (some ⟨rcv, .inFlight⟩)) where
  arrived := (h.concat _).arrived
  posted j rel hj := by
    rcases update_eq_some hj with ⟨rfl, rfl⟩ | ⟨_, hj⟩
    · obtain ⟨r, hr⟩ := List.exists_mem_of_ne_nil received hne
      exact ⟨r, precedes_last (h.arrived r hr) _⟩
    · exact (h.concat _).posted j rel hj
  copied j rel hj hp := by
    rcases update_eq_some hj with ⟨rfl, rfl⟩ | ⟨_, hj⟩
    · exact absurd rfl hp
    · exact (h.concat _).copied j rel hj hp
  held j rel hj e he := by
    rcases update_eq_some hj with ⟨rfl, rfl⟩ | ⟨_, hj⟩
    · exact absurd he List.not_mem_nil
    · exact (h.concat _).held j rel hj e he

/-- A handler copies a queue whose entries have all been pushed. -/
theorem CopyCause.copy {myQueue : List Entry} {since : Int} (h : CopyCause tr received releases)
    (hk : releases k = some ⟨rcv, .inFlight⟩) (hq : ∀ e ∈ myQueue, Event.push e.id ∈ tr) :
    CopyCause (tr ++ [.copy k]) received
      (Function.update releases k (some ⟨rcv, .copied myQueue since⟩)) where
  arrived := (h.concat _).arrived
  posted j rel hj := by
    rcases update_eq_some hj with ⟨rfl, rfl⟩ | ⟨_, hj⟩
    · exact (h.concat _).posted j _ hk
    · exact (h.concat _).posted j rel hj
  copied j rel hj hp := by
    rcases update_eq_some hj with ⟨rfl, rfl⟩ | ⟨_, hj⟩
    · obtain ⟨r, hprec⟩ := h.posted j _ hk
      exact precedes_last hprec.mem_right _
    · exact (h.concat _).copied j rel hj hp
  held j rel hj e he := by
    rcases update_eq_some hj with ⟨rfl, rfl⟩ | ⟨_, hj⟩
    · exact precedes_last (hq e he) _
    · exact (h.concat _).held j rel hj e he

/-- A handler that is past its copy goes on with what it holds. -/
theorem CopyCause.goto (h : CopyCause tr received releases) (hk : releases k = some ⟨rcv, phase⟩)
    (hp : phase ≠ .inFlight) (hheld : ∀ e ∈ phase'.held, e ∈ phase.held) :
    CopyCause (tr ++ [ev]) received (Function.update releases k (some ⟨rcv, phase'⟩)) where
  arrived := (h.concat _).arrived
  posted j rel hj := by
    rcases update_eq_some hj with ⟨rfl, rfl⟩ | ⟨_, hj⟩
    · exact (h.concat _).posted j _ hk
    · exact (h.concat _).posted j rel hj
  copied j rel hj hpj := by
    rcases update_eq_some hj with ⟨rfl, rfl⟩ | ⟨_, hj⟩
    · exact (h.concat _).copied j _ hk hp
    · exact (h.concat _).copied j rel hj hpj
  held j rel hj e he := by
    rcases update_eq_some hj with ⟨rfl, rfl⟩ | ⟨_, hj⟩
    · exact (h.concat _).held j _ hk e (hheld e he)
    · exact (h.concat _).held j rel hj e he

/-- **One step.** What a handler holds after the first loop, and from there on, was in its copy. -/
theorem copyCause_step (hpush : PushCause tr s.calls s.pushes)
    (h : CopyCause tr s.received s.releases) (hstep : Step s ev s') :
    CopyCause (tr ++ [ev]) s'.received s'.releases := by
  cases hstep with
  | deliverWrite => exact h.deliverWrite _
  | postRelease hr => exact h.postRelease hr _
  | copy _ hk =>
      refine h.copy hk (fun e he => ?_)
      obtain ⟨c, _, _, _, _, hprec⟩ := hpush.pushed e (List.mem_append_right _ he)
      exact hprec.mem_right
  | scan _ hk _ hout =>
      have hsub := (readLoop_sublist hout).2.trans (List.take_sublist _ _)
      exact h.goto hk Phase.noConfusion (fun e he => hsub.subset he)
  | popNothing _ hk => exact h.goto hk Phase.noConfusion (fun _ he => he)
  | pop _ hk => exact h.goto hk Phase.noConfusion (fun _ he => he)
  | ret _ hk => exact h.goto hk Phase.noConfusion (fun _ he => he)
  | respond _ hk => exact h.goto hk Phase.noConfusion (fun _ he => he)
  | finish _ hk => exact h.goto hk Phase.noConfusion (fun _ he => he)
  | _ => exact h.concat _

/-! ## Pops -/

/-- Some release popped `e` after `a`: the run had come to a state with `e` at the front of `myQueue`, and went
    on with a pop. -/
def PoppedAfter (a : Event) (e : Entry) (tr : List Event) : Prop :=
  ∃ before j after s, tr = before ++ Event.pop j :: after ∧ a ∈ before ∧
    system.Path System.Any before s ∧ s.myQueue.head? = some e

/-- Some release popped `e` after `a` and before `b`. -/
def PoppedBetween (a b : Event) (e : Entry) (tr : List Event) : Prop :=
  ∃ before after, tr = before ++ b :: after ∧ PoppedAfter a e before

/-- `e` has been popped after `a`, or is among the next `n` entries to be popped. -/
def Due (tr : List Event) (a : Event) (myQueue : List Entry) (n : Nat) (e : Entry) : Prop :=
  PoppedAfter a e tr ∨ e ∈ myQueue.take n

variable {a b : Event} {q : List Entry} {x : Entry}

theorem PoppedAfter.concat (h : PoppedAfter a e tr) (ev : Event) : PoppedAfter a e (tr ++ [ev]) := by
  obtain ⟨before, j, after, s, rfl, ha, hpath, hq⟩ := h
  exact ⟨before, j, after ++ [ev], s, by rw [List.append_assoc]; rfl, ha, hpath, hq⟩

/-- The later of the two events is in the trace. -/
theorem PoppedBetween.mem_right (h : PoppedBetween a b e tr) : b ∈ tr := by
  obtain ⟨before, after, rfl, -⟩ := h
  exact List.mem_append_right _ List.mem_cons_self

theorem PoppedBetween.concat (h : PoppedBetween a b e tr) (ev : Event) : PoppedBetween a b e (tr ++ [ev]) := by
  obtain ⟨before, after, rfl, hpopped⟩ := h
  exact ⟨before, after ++ [ev], by rw [List.append_assoc]; rfl, hpopped⟩

theorem Due.concat (h : Due tr a q n e) (ev : Event) : Due (tr ++ [ev]) a q n e :=
  h.imp (fun hpopped => hpopped.concat ev) id

/-- What `n` pops reach, more pops reach too. -/
theorem Due.mono (h : Due tr a q n e) (hle : n ≤ m) : Due tr a q m e :=
  h.imp id (fun he => List.take_subset_take_left q hle he)

/-- An entry that no pop is left for has been popped. -/
theorem Due.popped (h : Due tr a q 0 e) : PoppedAfter a e tr :=
  h.resolve_right (by rw [List.take_zero]; exact List.not_mem_nil)

/-- The guarded pop of an empty queue pops nothing, and nothing is left to be popped. -/
theorem Due.of_empty (h : Due tr a [] n e) : Due tr a [] m e :=
  h.imp id (by rw [List.take_nil]; exact fun he => absurd he List.not_mem_nil)

/-- A push puts its entry behind all that is due. -/
theorem Due.push (h : Due tr a q n e) : Due (tr ++ [ev]) a (q ++ [x]) n e :=
  (h.concat ev).imp id (fun he => by rw [List.take_append]; exact List.mem_append_left _ he)

/-- One pop, by whatever release. -/
theorem Due.pop (h : Due tr a (x :: q) (n + 1) e) (ha : a ∈ tr) (hpath : system.Path System.Any tr s)
    (hq : s.myQueue = x :: q) (j : Nat) : Due (tr ++ [.pop j]) a q n e := by
  rcases h with hpopped | he
  · exact Or.inl (hpopped.concat _)
  · rw [List.take_succ_cons] at he
    rcases List.mem_cons.mp he with rfl | he
    · exact Or.inl ⟨tr, j, [], s, rfl, ha, hpath, by rw [hq]; rfl⟩
    · exact Or.inr he

/-- The pops that a release handler has still to do. -/
def Phase.pops : Phase → Nat
  | .popping _ countPops => countPops
  | _                    => 0

/-- Of a copy, the first `n` entries are due with `n` pops; of a list, all with the pops still to do. -/
structure PopCause (tr : List Event) (releases : Nat → Option Release) (myQueue : List Entry) : Prop where
  copied : ∀ k rel, releases k = some rel → ∀ duplicate since, rel.phase = .copied duplicate since →
    ∀ n, ∀ e ∈ duplicate.take n, Due tr (.copy k) myQueue n e
  listed : ∀ k rel, releases k = some rel → ∀ e ∈ rel.phase.requests,
    Due tr (.copy k) myQueue rel.phase.pops e

/-- What keeps the entries of every handler past its copy due, keeps the cause. -/
theorem PopCause.map {tr' : List Event} {q' : List Entry} (h : PopCause tr releases q)
    (hdue : ∀ k rel, releases k = some rel → rel.phase ≠ .inFlight → ∀ n e, Due tr (.copy k) q n e →
      Due tr' (.copy k) q' n e) : PopCause tr' releases q' where
  copied k rel hk duplicate since hphase n e he :=
    hdue k rel hk (by rw [hphase]; exact Phase.noConfusion) n e (h.copied k rel hk duplicate since hphase n e he)
  listed k rel hk e he := by
    refine hdue k rel hk (fun hphase => ?_) _ e (h.listed k rel hk e he)
    rw [hphase] at he
    exact absurd he List.not_mem_nil

/-- A step that leaves the queue and the releases alone. -/
theorem PopCause.concat (h : PopCause tr releases q) (ev : Event) : PopCause (tr ++ [ev]) releases q :=
  h.map (fun _ _ _ _ _ _ hdue => hdue.concat ev)

/-- A handler moves on to a phase whose entries are due. -/
theorem PopCause.goto (h : PopCause tr releases q)
    (hcopied : ∀ duplicate since, phase' = .copied duplicate since →
      ∀ n, ∀ e ∈ duplicate.take n, Due tr (.copy k) q n e)
    (hlisted : ∀ e ∈ phase'.requests, Due tr (.copy k) q phase'.pops e) :
    PopCause tr (Function.update releases k (some ⟨rcv, phase'⟩)) q where
  copied j rel hj duplicate since hphase := by
    rcases update_eq_some hj with ⟨rfl, rfl⟩ | ⟨_, hj⟩
    · exact hcopied duplicate since hphase
    · exact h.copied j rel hj duplicate since hphase
  listed j rel hj := by
    rcases update_eq_some hj with ⟨rfl, rfl⟩ | ⟨_, hj⟩
    · exact hlisted
    · exact h.listed j rel hj

/-- **One step.** The first loop counts the entries of the copy that it goes through, and the second does as
    many pops. -/
theorem popCause_step (hpath : system.Path System.Any tr s) (hcopy : CopyCause tr s.received s.releases)
    (h : PopCause tr s.releases s.myQueue) (hstep : Step s ev s') :
    PopCause (tr ++ [ev]) s'.releases s'.myQueue := by
  cases hstep with
  | push => exact h.map (fun _ _ _ _ _ _ hdue => hdue.push)
  | postRelease =>
      exact (h.concat _).goto (fun _ _ hphase => Phase.noConfusion hphase)
        (fun _ he => absurd he List.not_mem_nil)
  | copy _ hk =>
      refine (h.concat _).goto (fun duplicate since hphase n e he => ?_)
        (fun _ he => absurd he List.not_mem_nil)
      obtain ⟨rfl, -⟩ := Phase.copied.inj hphase
      exact Or.inr he
  | scan _ hk _ hout =>
      refine (h.concat _).goto (fun _ _ hphase => Phase.noConfusion hphase) (fun e he => ?_)
      exact (h.copied _ _ hk _ _ rfl _ e ((readLoop_sublist hout).2.subset he)).concat _
  | @popNothing k _ _ _ _ hk hq =>
      refine (h.concat _).goto (fun _ _ hphase => Phase.noConfusion hphase) (fun e he => ?_)
      have hdue := (h.listed _ _ hk e he).concat (.pop k)
      rw [hq] at hdue ⊢
      exact hdue.of_empty
  | @pop k _ _ _ x q _ hk hq =>
      have hcopied : ∀ j rel, s.releases j = some rel → rel.phase ≠ .inFlight → Event.copy j ∈ tr :=
        fun j rel hj hphase => (hcopy.copied j rel hj hphase).mem_right
      -- for the other handlers one entry less is left of those that were due
      have hothers : PopCause (tr ++ [.pop k]) s.releases q := by
        refine h.map (fun j rel hj hphase n e hdue => ?_)
        rw [hq] at hdue
        exact (hdue.mono (Nat.le_succ n)).pop (hcopied j rel hj hphase) hpath hq k
      refine hothers.goto (fun _ _ hphase => Phase.noConfusion hphase) (fun e he => ?_)
      have hdue := h.listed _ _ hk e he
      rw [hq] at hdue
      exact hdue.pop (hcopied _ _ hk Phase.noConfusion) hpath hq k
  | ret _ hk =>
      exact (h.concat _).goto (fun _ _ hphase => Phase.noConfusion hphase) ((h.concat _).listed _ _ hk)
  | respond _ hk =>
      exact (h.concat _).goto (fun _ _ hphase => Phase.noConfusion hphase) ((h.concat _).listed _ _ hk)
  | finish _ hk =>
      exact (h.concat _).goto (fun _ _ hphase => Phase.noConfusion hphase) ((h.concat _).listed _ _ hk)
  | _ => exact h.concat _

/-! ## Responses -/

/-- Each response was posted by its release after the copy, for an entry of the copy that had been popped by
    then, and delivered after that. -/
structure ResponseCause (tr : List Event) (posted delivered : List Response) : Prop where
  copied    : ∀ resp ∈ posted, Precedes (Event.push resp.entry.id) (Event.copy resp.release) tr ∧
    Precedes (Event.postRelease resp.release) (Event.copy resp.release) tr
  posted    : ∀ resp ∈ posted, resp.post = answer resp.entry.toRequest ∧
    PoppedBetween (Event.copy resp.release) (Event.respond resp.release resp.entry.id) resp.entry tr
  delivered : ∀ resp ∈ delivered,
    Precedes (Event.respond resp.release resp.entry.id) (Event.deliver resp) tr

theorem ResponseCause.concat (h : ResponseCause tr posted delivered) (ev : Event) :
    ResponseCause (tr ++ [ev]) posted delivered where
  copied resp hr := ⟨(h.copied resp hr).1.concat ev, (h.copied resp hr).2.concat ev⟩
  posted resp hr := ⟨(h.posted resp hr).1, (h.posted resp hr).2.concat ev⟩
  delivered resp hr := (h.delivered resp hr).concat ev

/-- A handler posts a response for an entry that it holds and that has been popped. -/
theorem ResponseCause.respond (h : ResponseCause tr posted delivered)
    (hpush : Precedes (Event.push e.id) (Event.copy k) tr)
    (hpost : Precedes (Event.postRelease k) (Event.copy k) tr) (hpopped : PoppedAfter (.copy k) e tr) :
    ResponseCause (tr ++ [.respond k e.id]) (posted ++ [⟨k, e, answer e.toRequest⟩]) delivered where
  copied resp hr := by
    rcases List.mem_append.mp hr with hr | hr
    · exact (h.concat _).copied resp hr
    · obtain rfl := List.mem_singleton.mp hr
      exact ⟨hpush.concat _, hpost.concat _⟩
  posted resp hr := by
    rcases List.mem_append.mp hr with hr | hr
    · exact (h.concat _).posted resp hr
    · obtain rfl := List.mem_singleton.mp hr
      exact ⟨rfl, tr, [], rfl, hpopped⟩
  delivered := (h.concat _).delivered

/-- A response is delivered after it was posted. -/
theorem ResponseCause.deliver (h : ResponseCause tr posted delivered) (hr : resp ∈ posted) :
    ResponseCause (tr ++ [.deliver resp]) posted (delivered ++ [resp]) where
  copied := (h.concat _).copied
  posted := (h.concat _).posted
  delivered x hx := by
    rcases List.mem_append.mp hx with hx | hx
    · exact (h.concat _).delivered x hx
    · obtain rfl := List.mem_singleton.mp hx
      exact precedes_last (h.posted x hr).2.mem_right _

/-- **One step.** A handler responds to the entries of its list, when all its pops are done. -/
theorem responseCause_step (hinv : Inv s) (hcopy : CopyCause tr s.received s.releases)
    (hpop : PopCause tr s.releases s.myQueue) (h : ResponseCause tr s.posted s.delivered) (hstep : Step s ev s') :
    ResponseCause (tr ++ [ev]) s'.posted s'.delivered := by
  cases hstep with
  | @respond k rcv requests e todo _ hk =>
      -- the entry is one of those the handler got from its copy
      have hacc : answered s.posted k ++ e :: todo = requests := hinv.release.accounts _ _ hk
      have hheld : e ∈ requests := by
        rw [← hacc]
        exact List.mem_append_right _ List.mem_cons_self
      exact h.respond (hcopy.held _ _ hk e hheld) (hcopy.copied _ _ hk Phase.noConfusion)
        (hpop.listed _ _ hk e hheld).popped
  | deliver hr => exact h.deliver (hinv.deliver.flying.subset hr)
  | _ => exact h.concat _

/-! ## The history of a response -/

/-- The events that a response to a request rests on, each before the next. -/
structure History (tr : List Event) (resp : Response) (c : Call) : Prop where
  /-- The request was started with this client's address, then executed (a read) or sent to Astraea (a write),
      and then its entry was pushed. -/
  pushed    : PushedInTurn tr resp.entry.id c
  /-- Astraea had received a write when it posted the release. -/
  released  : ∃ w, Precedes (.deliverWrite w) (.postRelease resp.release) tr
  /-- The handler of the release copied the queue after both. -/
  copied    : Precedes (.push resp.entry.id) (.copy resp.release) tr ∧
    Precedes (.postRelease resp.release) (.copy resp.release) tr
  /-- The entry was popped off the queue after the copy, and the response posted after that. -/
  posted    : PoppedBetween (.copy resp.release) (.respond resp.release resp.entry.id) resp.entry tr
  delivered : Precedes (.respond resp.release resp.entry.id) (.deliver resp) tr

theorem pushCause_initial : PushCause [] initial.calls initial.pushes := ⟨nofun, nofun, nofun, nofun⟩

theorem copyCause_initial : CopyCause [] initial.received initial.releases := ⟨nofun, nofun, nofun, nofun⟩

theorem responseCause_initial : ResponseCause [] initial.posted initial.delivered := ⟨nofun, nofun, nofun⟩

theorem popCause_initial : PopCause [] initial.releases initial.myQueue := ⟨nofun, nofun⟩

/-- The causes that hold at the end of every run. -/
structure Causes (tr : List Event) (s : State) : Prop where
  inv      : Inv s
  push     : PushCause tr s.calls s.pushes
  copy     : CopyCause tr s.received s.releases
  pop      : PopCause tr s.releases s.myQueue
  response : ResponseCause tr s.posted s.delivered

/-- **Every run** has its causes. -/
theorem causes_of_path (h : system.Path System.Any tr s) : Causes tr s := by
  refine System.Path.invariant (P := Causes)
    ⟨inv_initial, pushCause_initial, copyCause_initial, popCause_initial, responseCause_initial⟩ ?_ h
  intro tr s ev s' hpath hcauses _ hstep
  have hcases := step_cases hstep
  exact ⟨inv_step hcauses.inv hstep, pushCause_step hcauses.inv.call hcauses.push hcases,
    copyCause_step hcauses.push hcauses.copy hcases, popCause_step hpath hcauses.copy hcauses.pop hcases,
    responseCause_step hcauses.inv hcauses.copy hcauses.pop hcauses.response hcases⟩

/-- **Every delivered response has a history**, in every run: the request it answers was started by the
    client it was sent to, as the kind of request it is answered as. -/
theorem delivered_caused {tr : List Event} {s : State} (h : system.Path System.Any tr s) {resp : Response}
    (hr : resp ∈ s.delivered) : ∃ c, s.calls resp.entry.id = some c ∧ History tr resp c ∧
      resp.post = ⟨c.ipClient ++ lit "/response",
        [(lit "response", if c.readRequest then lit "OK" else [])]⟩ := by
  obtain ⟨hinv, hpush, hcopy, -, hresp⟩ := causes_of_path h
  have hposted := hinv.deliver.posted resp hr
  obtain ⟨rel, hrel, hmem⟩ := hinv.release.mem_requests hposted
  have hpushed := hinv.release.held _ _ hrel _ (mem_held_of_requests hmem)
  obtain ⟨c, hc, -, hb⟩ := hinv.push.pushed _ hpushed
  obtain ⟨c', hc', hturn⟩ := hpush.pushed _ hpushed
  obtain rfl := Option.some.inj (hc.symm.trans hc')
  refine ⟨c, hc, ⟨hturn, hcopy.posted _ _ hrel, hresp.copied resp hposted, (hresp.posted resp hposted).2,
    hresp.delivered resp hr⟩, ?_⟩
  rw [(hresp.posted resp hposted).1, answer, hb.client, hb.read]
  cases c.readRequest <;> rfl

/-- One read request, answered on the release for its own write. -/
def answeredRead : List Event :=
  [.startRead 0 (lit "SELECT") (lit "a"), .sendWrite 0, .query 0 .noRows, .push 0, .deliverWrite 0,
   .postRelease 0, .copy 0, .scan 0 (Clock.held 0), .pop 0, .ret 0, .respond 0 0,
   .deliver ⟨0, ⟨readEntry [] (lit "a") 0, 0⟩, answer (readEntry [] (lit "a") 0)⟩]

theorem delivered_caused_answeredRead : ∃ s resp c, system.Path System.Any answeredRead s ∧
    resp ∈ s.delivered ∧ s.calls resp.entry.id = some c ∧ History answeredRead resp c := by
  obtain ⟨s, hs, hp⟩ := System.exists_path_of_run system answeredRead
    (fun s => decide (⟨0, ⟨readEntry [] (lit "a") 0, 0⟩, answer (readEntry [] (lit "a") 0)⟩ ∈ s.delivered))
    (by decide)
  obtain ⟨c, hc, hhist, -⟩ := delivered_caused hs (of_decide_eq_true hp)
  exact ⟨s, _, c, hs, of_decide_eq_true hp, hc, hhist⟩

end Protocol
end AstraeaGateway
