import AstraeaGateway.Protocol.Snapshot

/-!
# `Protocol.Order` — do responses keep the order of requests?

`run.sh` pairs the k-th request sent with the k-th response received. A request goes through three stages:
the push of its entry, its release, and the delivery of its response. The second keeps the order of the
queue (`TurnInv`, releases being handled one at a time); the other two promise nothing, since each task
pushes when its query is done and each response travels on a thread of its own (`overtakenByLater`).
`InOrder` is what they would have to keep to, and `responses_in_order` is the order of the responses.
-/

namespace AstraeaGateway
namespace Protocol

open Transition Gateway

/-- Two read requests of one client. -/
def Entry.SameReader (x y : Entry) : Prop :=
  x.readRequest = true ∧ y.readRequest = true ∧ x.ipClient = y.ipClient

instance (x y : Entry) : Decidable (x.SameReader y) :=
  inferInstanceAs (Decidable (_ ∧ _ ∧ _))

def Call.SameReader (c d : Call) : Prop :=
  c.readRequest = true ∧ d.readRequest = true ∧ c.ipClient = d.ipClient

instance (c d : Call) : Decidable (c.SameReader d) :=
  inferInstanceAs (Decidable (_ ∧ _ ∧ _))

/-- **In order.** A read request is pushed only when the earlier ones of its client have been, and its
    response is delivered only when no response to an earlier one is still in flight. -/
def InOrder (s : State) : Event → Prop
  | .push b       => ∀ a < b, ∀ c ∈ s.calls a, ∀ d ∈ s.calls b, c.SameReader d → c.pushing = .pushed
  | .deliver resp => ∀ x ∈ s.inFlight, x.entry.SameReader resp.entry → resp.entry.id ≤ x.entry.id
  | _             => True

instance (s : State) : (ev : Event) → Decidable (InOrder s ev)
  | .push b => inferInstanceAs (Decidable
      (∀ a < b, ∀ c ∈ s.calls a, ∀ d ∈ s.calls b, c.SameReader d → c.pushing = .pushed))
  | .deliver resp => inferInstanceAs (Decidable
      (∀ x ∈ s.inFlight, x.entry.SameReader resp.entry → resp.entry.id ≤ x.entry.id))
  | .tick _ | .startRead _ _ _ | .startWrite _ _ _ | .sendWrite _ | .loseWrite _ | .deliverWrite _
  | .query _ _ | .stamp _ | .postRelease _ | .copy _ | .scan _ _ | .pop _ | .ret _ | .respond _ _
  | .finish _ => isTrue trivial

variable {calls : Nat → Option Call} {releases : Nat → Option Release} {received rcv : List Nat}
variable {pushes todo todo' : List Entry} {phase phase' : Phase} {c c' : Call} {e x y : Entry}
variable {k m n r left : Nat} {s s' : State} {ev : Event} {tr : List Event} {resp : Response}
variable {posted inFlight delivered : List Response}

/-- Requests of one client are in the order in which their handlers started. -/
def Started (x y : Entry) : Prop := x.SameReader y → x.id < y.id

theorem Entry.SameReader.symm (h : x.SameReader y) : y.SameReader x := ⟨h.2.1, h.1, h.2.2.symm⟩

/-! ## The first stage: pushes -/

structure PushOrder (calls : Nat → Option Call) (pushes : List Entry) : Prop where
  sorted : pushes.Pairwise Started
  earlier : ∀ x ∈ pushes, ∀ a < x.id, ∀ c, calls a = some c → c.readRequest = true →
    x.readRequest = true → c.ipClient = x.ipClient → c.pushing = .pushed

theorem PushOrder.start (h : PushOrder calls pushes) (hknown : ∀ x ∈ pushes, x.id < n) :
    PushOrder (Function.update calls n (some c)) pushes where
  sorted := h.sorted
  earlier x hx a ha d hd := by
    rcases update_eq_some hd with ⟨rfl, _⟩ | ⟨_, hd⟩
    · have hlt := hknown x hx
      omega
    · exact h.earlier x hx a ha d hd

/-- A request that moves on keeps its place. -/
theorem PushOrder.update (h : PushOrder calls pushes) (hc : calls r = some c)
    (hread : c'.readRequest = c.readRequest) (hclient : c'.ipClient = c.ipClient)
    (hp : c.pushing = .pushed → c'.pushing = .pushed) :
    PushOrder (Function.update calls r (some c')) pushes where
  sorted := h.sorted
  earlier x hx a ha d hd hdr hxr hdx := by
    rcases update_eq_some hd with ⟨rfl, rfl⟩ | ⟨_, hd⟩
    · exact hp (h.earlier x hx a ha c hc (hread ▸ hdr) hxr (hclient ▸ hdx))
    · exact h.earlier x hx a ha d hd hdr hxr hdx

/-- A push that no earlier read request of the client is left behind by. -/
theorem PushOrder.push (h : PushOrder calls pushes) (hpush : PushInv calls pushes)
    (hc : calls r = some c) (he : c.pushing = .ready e) (hb : BuiltFor r c.readRequest c.ipClient e)
    (hin : ∀ a < r, ∀ b ∈ calls a, ∀ d ∈ calls r, b.SameReader d → b.pushing = .pushed) :
    PushOrder calls (pushes ++ [e]) where
  sorted := by
    refine List.pairwise_append.mpr ⟨h.sorted, List.pairwise_singleton _ _, ?_⟩
    intro x hx y hy hsame
    obtain rfl := List.mem_singleton.mp hy
    obtain ⟨hxr, her, hclient⟩ := hsame
    rw [hb.id]
    by_contra hle
    -- otherwise `r` started before `x`, whose push waited for it, and `r` is only being pushed now
    obtain ⟨d, hd, hpd, _⟩ := hpush.pushed x hx
    have hne : x.id ≠ r := by
      intro hid
      obtain rfl := Option.some.inj (hc.symm.trans (hid ▸ hd))
      rw [he] at hpd
      cases hpd
    have hpushed := h.earlier x hx r (by omega) c hc (hb.read.symm.trans her) hxr
      (hb.client.symm.trans hclient.symm)
    rw [he] at hpushed
    cases hpushed
  earlier x hx a ha d hd hdr hxr hdx := by
    rcases List.mem_append.mp hx with hx | hx
    · exact h.earlier x hx a ha d hd hdr hxr hdx
    · obtain rfl := List.mem_singleton.mp hx
      rw [hb.id] at ha
      exact hin a ha d hd c hc ⟨hdr, hb.read.symm.trans hxr, hdx.trans hb.client⟩

/-- **One step.** A client's reads are pushed in the order in which they were started. -/
theorem pushOrder_step (hinv : Inv s) (h : PushOrder s.calls s.pushes) (hin : InOrder s ev)
    (hstep : Step s ev s') : PushOrder s'.calls s'.pushes := by
  have hknown : ∀ x ∈ s.pushes, x.id < s.nextCall := by
    intro x hx
    obtain ⟨d, hd, _⟩ := hinv.push.pushed x hx
    exact hinv.call.known _ d hd
  cases hstep with
  | startRead           => exact h.start hknown
  | startWrite          => exact h.start hknown
  | sendWrite _ hc      => exact h.update hc rfl rfl id
  | loseWrite hc        => exact h.update hc rfl rfl id
  | deliverWrite hc     => exact h.update hc rfl rfl id
  | queryOk _ hc _ hrun => exact h.update hc rfl rfl (by rw [hrun]; exact Pushing.noConfusion)
  | stamp _ hc _ hrun   => exact h.update hc rfl rfl (by rw [hrun]; exact Pushing.noConfusion)
  | push _ hc he        =>
      have hpush := h.push hinv.push hc he (hinv.call.built _ _ _ hc he) hin
      show PushOrder _ (s.popped ++ (s.myQueue ++ [_]))
      rw [pushes_push]
      exact hpush.update hc rfl rfl (fun _ => rfl)
  | pop _ _ hq          =>
      show PushOrder _ (s.popped ++ [_] ++ _)
      rw [pushes_pop hq]
      exact h
  | _                   => exact h

/-! ## The second stage: releases, one at a time -/

/-- `todo` is what the active handler has still to respond to; nobody else is active. -/
structure Turn (releases : Nat → Option Release) (todo : List Entry) : Prop where
  one    : ∀ i j rel rel', releases i = some rel → releases j = some rel' →
    rel.phase.active = true → rel'.phase.active = true → i = j
  active : ∀ k rel, releases k = some rel → rel.phase.active = true → rel.phase.todo = todo
  idle   : (∀ k rel, releases k = some rel → rel.phase.active = false) → todo = []

/-- Handler `k` moves on while no other one is active. -/
theorem turn_of_only (hothers : ∀ j rel, j ≠ k → releases j = some rel → rel.phase.active = false)
    (hactive : phase.active = true → phase.todo = todo) (hidle : phase.active = false → todo = []) :
    Turn (Function.update releases k (some ⟨rcv, phase⟩)) todo where
  one := atMostOne_of_others (p := Phase.active) hothers
  active j rel hj ha := by
    rcases update_eq_some hj with ⟨_, rfl⟩ | ⟨hjk, hj⟩
    · exact hactive ha
    · rw [hothers j rel hjk hj] at ha
      cases ha
  idle hnone := hidle (hnone k _ (Function.update_self ..))

/-- A move of the active handler. -/
theorem Turn.move (h : Turn releases todo) (hk : releases k = some ⟨rcv, phase⟩)
    (ha : phase.active = true) (hactive : phase'.active = true → phase'.todo = todo')
    (hidle : phase'.active = false → todo' = []) :
    Turn (Function.update releases k (some ⟨rcv, phase'⟩)) todo' :=
  turn_of_only (AtMostOne.others (p := Phase.active) h.one hk ha) hactive hidle

theorem Turn.todo_eq (h : Turn releases todo) (hk : releases k = some ⟨rcv, phase⟩)
    (ha : phase.active = true) : phase.todo = todo := h.active k _ hk ha

theorem Turn.post (h : Turn releases todo) (hm : releases m = none) :
    Turn (Function.update releases m (some ⟨rcv, .inFlight⟩)) todo where
  one := AtMostOne.aside (p := Phase.active) h.one rfl
  active j rel hj ha := by
    rcases update_eq_some hj with ⟨_, rfl⟩ | ⟨_, hj⟩
    · cases ha
    · exact h.active j rel hj ha
  idle hnone := by
    exact h.idle (fun j rel hj => hnone j rel (update_of_fresh hm hj _))

/-- What has been responded to, and what the active handler has still to respond to, is what has been read
    out, in the order of the queue. -/
def TurnInv (s : State) : Prop := ∃ left todo, Window s.releases s.myQueue left ∧ Turn s.releases todo ∧
  Served False s.popped s.myQueue left (s.posted.map Response.entry ++ todo)

/-- **One step.** With one release at a time, what is to be answered is one list. -/
theorem turnInv_step (hinv : Inv s) (h : TurnInv s) (hone : OneAtATime s ev) (hstep : Step s ev s') :
    TurnInv s' := by
  obtain ⟨left, todo, hw, ht, hs⟩ := h
  cases hstep with
  | push => exact ⟨left, todo, hw.push _, ht, hs.push hw.bound _⟩
  | postRelease => exact ⟨left, todo, hw.post hinv.release.fresh, ht.post hinv.release.fresh, hs⟩
  | @copy k _ _ hk =>
      have hnone : ∀ j rel, s.releases j = some rel → rel.phase.active = false :=
        fun j rel hj => hone j (hinv.release.known j rel hj) rel hj
      obtain rfl := ht.idle hnone
      exact ⟨left, [], hw.copy (fun j rel hj => readsOut_of_not_active (hnone j rel hj)),
        turn_of_only (fun j rel _ hj => hnone j rel hj) (fun _ => rfl) (fun _ => rfl), hs⟩
  | scan _ hk _ hout =>
      obtain ⟨hle, hsub⟩ := readLoop_sublist hout
      obtain rfl := ht.todo_eq hk rfl
      obtain ⟨left', hw', hs'⟩ := hw.serve hs hk hle hsub False.elim
      refine ⟨left', _, hw', ht.move hk rfl (fun _ => rfl) (fun ha => Bool.noConfusion ha), ?_⟩
      rw [List.append_assoc] at hs'
      exact hs'
  | popNothing _ hk hq => exact absurd hq (hw.not_empty hk)
  | pop _ hk hq =>
      rw [hq] at hw hs
      obtain rfl := hw.popping _ _ _ _ hk (Nat.succ_ne_zero _)
      have htodo := ht.todo_eq hk rfl
      exact ⟨_, todo, hw.pop hk, ht.move hk rfl (fun _ => htodo) (fun ha => Bool.noConfusion ha), hs.pop⟩
  | ret _ hk =>
      have htodo := ht.todo_eq hk rfl
      exact ⟨left, todo, hw.after hk rfl rfl,
        ht.move hk rfl (fun _ => htodo) (fun ha => Bool.noConfusion ha), hs⟩
  | respond _ hk =>
      obtain rfl := ht.todo_eq hk rfl
      refine ⟨left, _, hw.after hk rfl rfl, ht.move hk rfl (fun _ => rfl)
        (fun ha => Bool.noConfusion ha), ?_⟩
      rw [List.map_append, List.append_assoc]
      exact hs
  | finish _ hk =>
      obtain rfl := ht.todo_eq hk rfl
      exact ⟨left, [], hw.after hk rfl rfl, ht.move hk rfl (fun ha => Bool.noConfusion ha)
        (fun _ => rfl), hs⟩
  | _ => exact ⟨left, todo, hw, ht, hs⟩

/-- Responses are posted in the order of the queue, at most one for each entry. -/
theorem TurnInv.sublist (h : TurnInv s) : (s.posted.map Response.entry).Sublist s.pushes := by
  obtain ⟨left, todo, _, _, hs⟩ := h
  exact (List.sublist_append_left ..).trans hs.sublist_pushes

/-! ## The third stage: deliveries -/

def Response.Started (x y : Response) : Prop := Protocol.Started x.entry y.entry

structure DeliverOrder (inFlight delivered : List Response) : Prop where
  sorted  : delivered.Pairwise Response.Started
  earlier : ∀ x ∈ delivered, ∀ y ∈ inFlight, x.Started y

theorem DeliverOrder.respond (h : DeliverOrder inFlight delivered)
    (hlast : ∀ x ∈ delivered, x.Started resp) : DeliverOrder (inFlight ++ [resp]) delivered where
  sorted := h.sorted
  earlier x hx y hy := by
    rcases List.mem_append.mp hy with hy | hy
    · exact h.earlier x hx y hy
    · obtain rfl := List.mem_singleton.mp hy
      exact hlast x hx

/-- The delivery of a client's oldest response in flight. -/
theorem DeliverOrder.deliver (h : DeliverOrder inFlight delivered) (hr : resp ∈ inFlight)
    (honce : (inFlight.map (fun x => x.entry.id)).Nodup)
    (hin : ∀ x ∈ inFlight, x.entry.SameReader resp.entry → resp.entry.id ≤ x.entry.id) :
    DeliverOrder (inFlight.erase resp) (delivered ++ [resp]) where
  sorted := by
    refine List.pairwise_append.mpr ⟨h.sorted, List.pairwise_singleton _ _, ?_⟩
    intro x hx y hy
    obtain rfl := List.mem_singleton.mp hy
    exact h.earlier x hx y hr
  earlier x hx y hy := by
    have hyin : y ∈ inFlight := List.mem_of_mem_erase hy
    rcases List.mem_append.mp hx with hx | hx
    · exact h.earlier x hx y hyin
    · obtain rfl := List.mem_singleton.mp hx
      intro hsame
      -- another response in flight is for another request, and the delivered one is the oldest
      have hne : y ≠ x := ((honce.of_map _).mem_erase_iff.mp hy).1
      have hid : x.entry.id ≠ y.entry.id := by
        intro hid
        exact hne (List.inj_on_of_nodup_map honce hyin hr hid.symm)
      have hle := hin y hyin hsame.symm
      omega

/-- **One step.** A client gets its responses in the order in which they were posted. -/
theorem deliverOrder_step (hinv : Inv s) (hp' : PushOrder s'.calls s'.pushes)
    (ht : TurnInv s) (ht' : TurnInv s') (h : DeliverOrder s.inFlight s.delivered) (hin : InOrder s ev)
    (hstep : Step s ev s') : DeliverOrder s'.inFlight s'.delivered := by
  have honce : (s.posted.map (fun x => x.entry.id)).Nodup := by
    have hsub := ht.sublist.map Entry.id
    rw [List.map_map] at hsub
    exact hsub.nodup hinv.push.once
  have hsorted : (s'.posted.map Response.entry).Pairwise Started := hp'.sorted.sublist ht'.sublist
  cases hstep with
  | respond _ hk =>
      refine h.respond (fun x hx => ?_)
      -- `x` was posted before this response
      rw [List.map_append] at hsorted
      exact (List.pairwise_append.mp hsorted).2.2 _ (List.mem_map_of_mem (hinv.deliver.posted x hx)) _
        List.mem_cons_self
  | deliver hr => exact h.deliver hr ((hinv.deliver.flying.map _).nodup honce) hin
  | _ => exact h

/-! ## All three -/

theorem pushOrder_initial : PushOrder initial.calls initial.pushes := ⟨List.Pairwise.nil, nofun⟩

theorem turnInv_initial : TurnInv initial :=
  ⟨0, [], ⟨nofun, nofun, nofun, fun _ => rfl, Nat.le_refl 0⟩, ⟨nofun, nofun, fun _ => rfl⟩,
    ⟨List.Sublist.refl _, False.elim⟩⟩

theorem deliverOrder_initial : DeliverOrder initial.inFlight initial.delivered :=
  ⟨List.Pairwise.nil, nofun⟩

/-- **Every run** in which releases take turns and pushes and deliveries keep the order. -/
theorem deliverOrder_of_path (h : system.Path (fun s ev => OneAtATime s ev ∧ InOrder s ev) tr s) :
    DeliverOrder s.inFlight s.delivered := by
  have hall : Inv s ∧ PushOrder s.calls s.pushes ∧ TurnInv s ∧ DeliverOrder s.inFlight s.delivered := by
    refine System.Path.invariant_state (P := fun s => Inv s ∧ PushOrder s.calls s.pushes ∧ TurnInv s ∧
        DeliverOrder s.inFlight s.delivered)
      ⟨inv_initial, pushOrder_initial, turnInv_initial, deliverOrder_initial⟩ ?_ h
    rintro s ev s' ⟨hinv, hp, ht, hd⟩ ⟨hone, hin⟩ hstep
    have hcases := step_cases hstep
    have hp' := pushOrder_step hinv hp hin hcases
    have ht' := turnInv_step hinv ht hone hcases
    exact ⟨inv_step hinv hstep, hp', ht', deliverOrder_step hinv hp' ht ht' hd hin hcases⟩
  exact hall.2.2.2

/-- **Responses keep the order of requests**, in every run in which pushes and deliveries do: of two read
    requests of one client that were answered, the client has received the response to the one that started
    first before the response to the other. -/
theorem responses_in_order {tr : List Event} {s : State}
    (h : system.Path (fun s ev => OneAtATime s ev ∧ InOrder s ev) tr s) {x y : Response}
    (hx : x ∈ s.posted) (hy : y ∈ s.delivered) (hsame : x.entry.SameReader y.entry)
    (hlt : x.entry.id < y.entry.id) : Precedes x y s.delivered ∧ ¬ Precedes y x s.delivered := by
  have hord := deliverOrder_of_path h
  have hyx : ¬ y.Started x := by
    intro hst
    have hgt := hst hsame.symm
    omega
  have hdel : x ∈ s.delivered := by
    rcases (inv_of_path h).deliver.either x hx with hfly | hdel
    · exact absurd (hord.earlier y hy x hfly) hyx
    · exact hdel
  have hne : x ≠ y := by
    rintro rfl
    exact Nat.lt_irrefl _ hlt
  exact ⟨precedes_of_pairwise hord.sorted hdel hy hne hyx, not_precedes_of_pairwise hord.sorted hyx⟩

/-- The response to read request `r` of client `a`, on the first release. -/
def responseTo (r : Nat) : Response :=
  ⟨0, ⟨readEntry [] (lit "a") 0, r⟩, answer (readEntry [] (lit "a") 0)⟩

/-- Two read requests of one client, pushed and delivered in the order of their start. -/
def twoReads : List Event :=
  [.startRead 0 (lit "SELECT") (lit "a"), .startRead 1 (lit "SELECT") (lit "a"), .query 1 .noRows,
   .query 0 .noRows, .push 0, .push 1, .sendWrite 0, .sendWrite 1, .deliverWrite 1, .postRelease 0,
   .copy 0, .scan 0 (Clock.held 0), .pop 0, .pop 0, .ret 0, .respond 0 0, .respond 0 1,
   .deliver (responseTo 0), .deliver (responseTo 1)]

theorem responses_in_order_twoReads : ∃ s,
    system.Path (fun s ev => OneAtATime s ev ∧ InOrder s ev) twoReads s ∧
    Precedes (responseTo 0) (responseTo 1) s.delivered ∧
    ¬ Precedes (responseTo 1) (responseTo 0) s.delivered := by
  obtain ⟨s, hs, hp⟩ := System.exists_path_of_runWhere system twoReads
    (fun s ev => decide (OneAtATime s ev ∧ InOrder s ev))
    (fun s => decide (responseTo 0 ∈ s.posted ∧ responseTo 1 ∈ s.delivered))
    (fun _ _ h => of_decide_eq_true h) (by decide)
  obtain ⟨hx, hy⟩ := of_decide_eq_true hp
  exact ⟨s, hs, responses_in_order hs hx hy ⟨rfl, rfl, rfl⟩ (by decide)⟩

/-! ## Out of order -/

/-- The query of the second request is done first. -/
def overtakenByLater : List Event :=
  [.startRead 0 (lit "SELECT") (lit "a"), .startRead 1 (lit "SELECT") (lit "a"), .query 1 .noRows,
   .push 1, .query 0 .noRows, .push 0, .sendWrite 0, .sendWrite 1, .deliverWrite 0, .postRelease 0,
   .copy 0, .scan 0 (Clock.held 0), .pop 0, .pop 0, .ret 0, .respond 0 1, .respond 0 0,
   .deliver (responseTo 1), .deliver (responseTo 0)]

/-- **The later request is answered first**, with one release, and deliveries in the order of the posts. -/
theorem overtakenByLater_reversed : ∃ s, system.Path OneAtATime overtakenByLater s ∧
    s.delivered = [responseTo 1, responseTo 0] ∧
    (responseTo 0).entry.SameReader (responseTo 1).entry ∧
    ¬ Precedes (responseTo 0) (responseTo 1) s.delivered := by
  obtain ⟨s, hs, hp⟩ := System.exists_path_of_runWhere system overtakenByLater
    (fun s ev => decide (OneAtATime s ev)) (fun s => decide (s.delivered = [responseTo 1, responseTo 0]))
    (fun _ _ h => of_decide_eq_true h) (by decide)
  have hdel := of_decide_eq_true hp
  refine ⟨s, hs, hdel, ⟨rfl, rfl, rfl⟩, ?_⟩
  rw [hdel]
  intro hprec
  simp [precedes_cons, not_precedes_nil, responseTo] at hprec

end Protocol
end AstraeaGateway
