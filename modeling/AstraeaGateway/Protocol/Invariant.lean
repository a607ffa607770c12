import AstraeaGateway.Protocol.Steps
import Mathlib.Data.List.Nodup

/-!
# `Protocol.Invariant` — what holds in every reachable state, whatever the schedule

* `CallInv` — requests are numbered from zero, and an entry is built for the request that pushes it.
* `PushInv` — what was pushed is one entry for each request that has pushed.
* `ReleaseInv` — release handlers hold pushed entries only, and post one response for each entry of their
  list, in order.
* `DeliverInv` — a response that was posted is in flight or delivered.

None of them depends on who overtakes whom; the modules after this one add what does.
-/

namespace AstraeaGateway
namespace Protocol

open Transition Gateway

/-! ## Reading a state -/

/-- The list a release handler has been given by `getRequestsSentToAstraea`, or is about to be. -/
def Phase.requests : Phase → List Entry
  | .inFlight | .copied _ _ => []
  | .popping requests _ | .responding requests _ | .finished requests => requests

/-- The entries a release handler holds: its copy of the queue, later its list. -/
def Phase.held : Phase → List Entry
  | .copied duplicate _ => duplicate
  | phase               => phase.requests

/-- The part of the list that has no response yet. -/
def Phase.todo : Phase → List Entry
  | .popping requests _  => requests
  | .responding _ todo   => todo
  | _                    => []

/-- The entries a release has posted responses for, in order. -/
def answered (posted : List Response) (k : Nat) : List Entry :=
  (posted.filter (fun resp => resp.release = k)).map Response.entry

variable {calls : Nat → Option Call} {releases : Nat → Option Release} {n m r k : Nat} {c c' : Call}
variable {pushes : List Entry} {posted inFlight delivered : List Response} {e : Entry} {resp : Response}
variable {received : List Nat} {phase phase' : Phase} {s s' : State} {ev : Event}

theorem mem_held_of_requests (h : e ∈ phase.requests) : e ∈ phase.held := by
  cases phase with
  | copied => exact absurd h List.not_mem_nil
  | _ => exact h

/-- A response counts for its own release, -/
theorem answered_append_self (post : Post) :
    answered (posted ++ [⟨k, e, post⟩]) k = answered posted k ++ [e] := by
  unfold answered
  rw [List.filter_append, List.map_append]
  simp

/-- and for no other. -/
theorem answered_append_ne {j : Nat} (hj : j ≠ k) (post : Post) :
    answered (posted ++ [⟨k, e, post⟩]) j = answered posted j := by
  unfold answered
  rw [List.filter_append, List.map_append]
  simp [Ne.symm hj]

theorem mem_answered : e ∈ answered posted k ↔ ∃ resp ∈ posted, resp.release = k ∧ resp.entry = e := by
  unfold answered
  simp [and_assoc]

/-! ## Requests -/

/-- `e` is an entry built for request `r`. -/
structure BuiltFor (r : Nat) (readRequest : Bool) (ipClient : Str) (e : Entry) : Prop where
  id     : e.id = r
  sent   : e.isSentToAstraea = true
  read   : e.readRequest = readRequest
  client : e.ipClient = ipClient

structure CallInv (calls : Nat → Option Call) (n : Nat) : Prop where
  known   : ∀ r c, calls r = some c → r < n
  started : ∀ r, r < n → ∃ c, calls r = some c
  built   : ∀ r c e, calls r = some c → c.pushing = .ready e → BuiltFor r c.readRequest c.ipClient e

/-- The next number is free. -/
theorem CallInv.fresh (h : CallInv calls n) : calls n = none := by
  cases hc : calls n with
  | none => rfl
  | some c => exact absurd (h.known n c hc) (Nat.lt_irrefl n)

theorem CallInv.start (h : CallInv calls n) (hc : c.pushing = .running) :
    CallInv (Function.update calls n (some c)) (n + 1) where
  known r x hx := by
    rcases update_eq_some hx with ⟨rfl, _⟩ | ⟨_, hx⟩
    · exact Nat.lt_succ_self r
    · exact Nat.lt_succ_of_lt (h.known r x hx)
  started r hr := by
    by_cases hrn : r = n
    · exact ⟨c, by rw [hrn, Function.update_self]⟩
    · rw [Function.update_of_ne hrn]
      exact h.started r (by omega)
  built r x e hx he := by
    rcases update_eq_some hx with ⟨_, rfl⟩ | ⟨_, hx⟩
    · rw [hc] at he
      cases he
    · exact h.built r x e hx he

/-- A request that moves on may build its entry, for itself. -/
theorem CallInv.update (h : CallInv calls n) (hc : calls r = some c)
    (hb : ∀ e, c'.pushing = .ready e → BuiltFor r c'.readRequest c'.ipClient e) :
    CallInv (Function.update calls r (some c')) n where
  known r' x hx := by
    rcases update_eq_some hx with ⟨rfl, _⟩ | ⟨_, hx⟩
    · exact h.known r' c hc
    · exact h.known r' x hx
  started r' hr' := by
    by_cases hr : r' = r
    · exact ⟨c', by rw [hr, Function.update_self]⟩
    · rw [Function.update_of_ne hr]
      exact h.started r' hr'
  built r' x e hx he := by
    rcases update_eq_some hx with ⟨rfl, rfl⟩ | ⟨_, hx⟩
    · exact hb e he
    · exact h.built r' x e hx he

theorem CallInv.setWrite (h : CallInv calls n) (hc : calls r = some c) (write : WriteMsg) :
    CallInv (Function.update calls r (some { c with write := write })) n := by
  refine h.update hc (fun e he => ?_)
  have hb := h.built r c e hc he
  exact hb

/-- An entry is built once, from what its handler was called with. -/
theorem callInv_step (h : CallInv s.calls s.nextCall) (hstep : Step s ev s') :
    CallInv s'.calls s'.nextCall := by
  cases hstep with
  | startRead           => exact h.start rfl
  | startWrite          => exact h.start rfl
  | sendWrite _ hc      => exact h.setWrite hc _
  | loseWrite hc        => exact h.setWrite hc _
  | deliverWrite hc     => exact h.setWrite hc _
  | queryOk _ hc hread  =>
      refine h.update hc (fun e he => ?_)
      obtain rfl := Pushing.ready.inj he
      exact ⟨rfl, rfl, hread.symm, rfl⟩
  | stamp _ hc hwrite   =>
      refine h.update hc (fun e he => ?_)
      obtain rfl := Pushing.ready.inj he
      exact ⟨rfl, rfl, hwrite.symm, rfl⟩
  | push _ hc           => exact h.update hc (fun _ he => Pushing.noConfusion he)
  | _                   => exact h

/-! ## What has been pushed -/

structure PushInv (calls : Nat → Option Call) (pushes : List Entry) : Prop where
  pushed   : ∀ e ∈ pushes, ∃ c, calls e.id = some c ∧ c.pushing = .pushed ∧
    BuiltFor e.id c.readRequest c.ipClient e
  complete : ∀ r c, calls r = some c → c.pushing = .pushed → ∃ e ∈ pushes, e.id = r
  once     : (pushes.map Entry.id).Nodup

theorem PushInv.start (h : PushInv calls pushes) (hfresh : calls n = none) (hc : c.pushing = .running) :
    PushInv (Function.update calls n (some c)) pushes where
  pushed e he := by
    obtain ⟨x, hx, hp, hb⟩ := h.pushed e he
    exact ⟨x, update_of_fresh hfresh hx c, hp, hb⟩
  complete r x hx hp := by
    rcases update_eq_some hx with ⟨_, rfl⟩ | ⟨_, hx⟩
    · rw [hc] at hp
      cases hp
    · exact h.complete r x hx hp
  once := h.once

/-- A request that moves on without pushing. -/
theorem PushInv.update (h : PushInv calls pushes) (hc : calls r = some c)
    (hread : c'.readRequest = c.readRequest) (hclient : c'.ipClient = c.ipClient)
    (hp : c'.pushing = .pushed ↔ c.pushing = .pushed) :
    PushInv (Function.update calls r (some c')) pushes where
  pushed e he := by
    refine update_keeps hc ?_ (h.pushed e he)
    rintro ⟨hpc, hb⟩
    refine ⟨hp.mpr hpc, ?_⟩
    rw [hread, hclient]
    exact hb
  complete r' x hx hpx := by
    rcases update_eq_some hx with ⟨rfl, rfl⟩ | ⟨_, hx⟩
    · exact h.complete r' c hc (hp.mp hpx)
    · exact h.complete r' x hx hpx
  once := h.once

/-- The entry of a request that has not pushed yet. -/
theorem PushInv.push (h : PushInv calls pushes) (hc : calls r = some c) (he : c.pushing = .ready e)
    (hb : BuiltFor r c.readRequest c.ipClient e) :
    PushInv (Function.update calls r (some { c with pushing := .pushed })) (pushes ++ [e]) := by
  -- `r` is not among the requests that have pushed
  have hne : ∀ x ∈ pushes, x.id ≠ r := by
    intro x hx hid
    obtain ⟨y, hy, hp, _⟩ := h.pushed x hx
    obtain rfl := Option.some.inj (hc.symm.trans (hid ▸ hy))
    rw [he] at hp
    cases hp
  refine ⟨?_, ?_, ?_⟩
  · intro x hx
    rcases List.mem_append.mp hx with hx | hx
    · obtain ⟨y, hy, hp, hby⟩ := h.pushed x hx
      exact ⟨y, by rw [Function.update_of_ne (hne x hx)]; exact hy, hp, hby⟩
    · obtain rfl := List.mem_singleton.mp hx
      refine ⟨{ c with pushing := .pushed }, by rw [hb.id, Function.update_self], rfl, ?_⟩
      rw [hb.id]
      exact hb
  · intro r' x hx hp
    rcases update_eq_some hx with ⟨rfl, _⟩ | ⟨_, hx⟩
    · exact ⟨e, List.mem_append_right _ List.mem_cons_self, hb.id⟩
    · obtain ⟨y, hy, hid⟩ := h.complete r' x hx hp
      exact ⟨y, List.mem_append_left _ hy, hid⟩
  · rw [List.map_append, List.nodup_append]
    refine ⟨h.once, List.nodup_singleton _, ?_⟩
    intro a ha b hb'
    obtain ⟨x, hx, rfl⟩ := List.mem_map.mp ha
    obtain rfl := List.mem_singleton.mp hb'
    rw [hb.id]
    exact hne x hx

/-- **One step.** A pop moves an entry from the queue to what was popped; only a push adds one. -/
theorem pushInv_step (hcall : CallInv s.calls s.nextCall) (h : PushInv s.calls s.pushes)
    (hstep : Step s ev s') : PushInv s'.calls s'.pushes := by
  cases hstep with
  | startRead           => exact h.start hcall.fresh rfl
  | startWrite          => exact h.start hcall.fresh rfl
  | sendWrite _ hc      => exact h.update hc rfl rfl Iff.rfl
  | loseWrite hc        => exact h.update hc rfl rfl Iff.rfl
  | deliverWrite hc     => exact h.update hc rfl rfl Iff.rfl
  | queryOk _ hc _ hrun => exact h.update hc rfl rfl (by simp [hrun])
  | stamp _ hc _ hrun   => exact h.update hc rfl rfl (by simp [hrun])
  | push _ hc he        =>
      show PushInv _ (s.popped ++ (s.myQueue ++ [_]))
      rw [pushes_push]
      exact h.push hc he (hcall.built _ _ _ hc he)
  | pop _ _ hq          =>
      show PushInv _ (s.popped ++ [_] ++ _)
      rw [pushes_pop hq]
      exact h
  | _                   => exact h

/-! ## Releases -/

structure ReleaseInv (releases : Nat → Option Release) (m : Nat) (posted : List Response)
    (pushes : List Entry) : Prop where
  known    : ∀ k rel, releases k = some rel → k < m
  held     : ∀ k rel, releases k = some rel → ∀ e ∈ rel.phase.held, e ∈ pushes
  accounts : ∀ k rel, releases k = some rel → answered posted k ++ rel.phase.todo = rel.phase.requests
  posted   : ∀ resp ∈ posted, ∃ rel, releases resp.release = some rel

theorem ReleaseInv.mono {pushes' : List Entry} (h : ReleaseInv releases m posted pushes)
    (hsub : ∀ e ∈ pushes, e ∈ pushes') : ReleaseInv releases m posted pushes' where
  known    := h.known
  held k rel hk e he := hsub e (h.held k rel hk e he)
  accounts := h.accounts
  posted   := h.posted

/-- The list of a release has a response for every entry that is not still to do. -/
theorem ReleaseInv.mem_requests (h : ReleaseInv releases m posted pushes) (hr : resp ∈ posted) :
    ∃ rel, releases resp.release = some rel ∧ resp.entry ∈ rel.phase.requests := by
  obtain ⟨rel, hrel⟩ := h.posted resp hr
  refine ⟨rel, hrel, ?_⟩
  rw [← h.accounts _ rel hrel]
  exact List.mem_append_left _ (mem_answered.mpr ⟨resp, hr, rfl, rfl⟩)

theorem ReleaseInv.fresh (h : ReleaseInv releases m posted pushes) : releases m = none := by
  cases hm : releases m with
  | none => rfl
  | some rel => exact absurd (h.known m rel hm) (Nat.lt_irrefl m)

/-- Nothing was answered on a release that was not posted. -/
theorem ReleaseInv.answered_none (h : ReleaseInv releases m posted pushes) (hk : releases k = none) :
    answered posted k = [] := by
  refine List.eq_nil_iff_forall_not_mem.mpr (fun e he => ?_)
  obtain ⟨resp, hr, rfl, _⟩ := mem_answered.mp he
  obtain ⟨rel, hrel⟩ := h.posted resp hr
  rw [hk] at hrel
  cases hrel

/-- A new release holds nothing and has answered nothing. -/
theorem ReleaseInv.post (h : ReleaseInv releases m posted pushes) :
    ReleaseInv (Function.update releases m (some ⟨received, .inFlight⟩)) (m + 1) posted pushes := by
  have hnone := h.answered_none h.fresh
  refine ⟨?_, ?_, ?_, ?_⟩
  · intro k rel hk
    rcases update_eq_some hk with ⟨rfl, _⟩ | ⟨_, hk⟩
    · exact Nat.lt_succ_self k
    · exact Nat.lt_succ_of_lt (h.known k rel hk)
  · intro k rel hk e he
    rcases update_eq_some hk with ⟨_, rfl⟩ | ⟨_, hk⟩
    · exact absurd he List.not_mem_nil
    · exact h.held k rel hk e he
  · intro k rel hk
    rcases update_eq_some hk with ⟨rfl, rfl⟩ | ⟨_, hk⟩
    · rw [hnone]; rfl
    · exact h.accounts k rel hk
  · intro resp hr
    obtain ⟨rel, hrel⟩ := h.posted resp hr
    exact ⟨rel, update_of_fresh h.fresh hrel _⟩

/-- A release handler moves on, posting the responses `post` for itself. -/
theorem ReleaseInv.move (post : List Response) (h : ReleaseInv releases m posted pushes)
    (hk : releases k = some ⟨received, phase⟩) (hheld : ∀ e ∈ phase'.held, e ∈ pushes)
    (hacc : answered posted k ++ phase.todo = phase.requests →
      answered (posted ++ post) k ++ phase'.todo = phase'.requests)
    (hself : ∀ resp ∈ post, resp.release = k)
    (hothers : ∀ j, j ≠ k → answered (posted ++ post) j = answered posted j) :
    ReleaseInv (Function.update releases k (some ⟨received, phase'⟩)) m (posted ++ post) pushes := by
  refine ⟨?_, ?_, ?_, ?_⟩
  · intro j rel hj
    rcases update_eq_some hj with ⟨rfl, _⟩ | ⟨_, hj⟩
    · exact h.known j _ hk
    · exact h.known j rel hj
  · intro j rel hj e he
    rcases update_eq_some hj with ⟨_, rfl⟩ | ⟨_, hj⟩
    · exact hheld e he
    · exact h.held j rel hj e he
  · intro j rel hj
    rcases update_eq_some hj with ⟨rfl, rfl⟩ | ⟨hjk, hj⟩
    · exact hacc (h.accounts j _ hk)
    · rw [hothers j hjk]
      exact h.accounts j rel hj
  · intro resp hr
    by_cases hrk : resp.release = k
    · exact ⟨⟨received, phase'⟩, by rw [hrk, Function.update_self]⟩
    · rw [Function.update_of_ne hrk]
      rcases List.mem_append.mp hr with hr | hr
      · exact h.posted resp hr
      · exact absurd (hself resp hr) hrk

/-- A release handler moves on without a response. -/
theorem ReleaseInv.goto (h : ReleaseInv releases m posted pushes)
    (hk : releases k = some ⟨received, phase⟩) (hheld : ∀ e ∈ phase'.held, e ∈ pushes)
    (hacc : answered posted k ++ phase.todo = phase.requests →
      answered posted k ++ phase'.todo = phase'.requests) :
    ReleaseInv (Function.update releases k (some ⟨received, phase'⟩)) m posted pushes := by
  have hmove := h.move [] hk hheld (by rw [List.append_nil]; exact hacc)
    (fun _ hr => absurd hr List.not_mem_nil) (fun _ _ => by rw [List.append_nil])
  rwa [List.append_nil] at hmove

/-- The next response of a release. -/
theorem ReleaseInv.respond {requests todo : List Entry} (h : ReleaseInv releases m posted pushes)
    (hk : releases k = some ⟨received, .responding requests (e :: todo)⟩) (post : Post) :
    ReleaseInv (Function.update releases k (some ⟨received, .responding requests todo⟩)) m
      (posted ++ [⟨k, e, post⟩]) pushes := by
  refine h.move _ hk (h.held k _ hk) ?_ ?_ ?_
  · intro hacc
    show answered (posted ++ [⟨k, e, post⟩]) k ++ todo = requests
    rw [answered_append_self, List.append_assoc]
    exact hacc
  · intro resp hr
    obtain rfl := List.mem_singleton.mp hr
    rfl
  · intro j hjk
    exact answered_append_ne hjk post

/-- **One step.** What a handler holds was in the queue, and each response is the next of its list. -/
theorem releaseInv_step (h : ReleaseInv s.releases s.nextRel s.posted s.pushes) (hstep : Step s ev s') :
    ReleaseInv s'.releases s'.nextRel s'.posted s'.pushes := by
  cases hstep with
  | push =>
      refine h.mono (fun e he => ?_)
      show e ∈ s.popped ++ (s.myQueue ++ [_])
      rw [pushes_push]
      exact List.mem_append_left _ he
  | postRelease => exact h.post
  | copy _ hk => exact h.goto hk (fun e he => List.mem_append_right _ he) id
  | scan _ hk _ hout =>
      -- nothing has been answered on this release: its list was empty until now
      have hsub := (readLoop_sublist hout).2.trans (List.take_sublist _ _)
      refine h.goto hk (fun e he => h.held _ _ hk e (hsub.subset he)) (fun hacc => ?_)
      have hnil := (List.append_eq_nil_iff.mp hacc).1
      rw [hnil]
      rfl
  | popNothing _ hk => exact h.goto hk (h.held _ _ hk) id
  | pop _ hk hq =>
      show ReleaseInv _ _ _ (s.popped ++ [_] ++ _)
      rw [pushes_pop hq]
      exact h.goto hk (h.held _ _ hk) id
  | ret _ hk => exact h.goto hk (h.held _ _ hk) id
  | respond _ hk => exact h.respond hk _
  | finish _ hk =>
      exact h.goto hk (h.held _ _ hk) id
  | _ => exact h

/-! ## Responses -/

structure DeliverInv (posted inFlight delivered : List Response) : Prop where
  flying : inFlight.Sublist posted
  either : ∀ resp ∈ posted, resp ∈ inFlight ∨ resp ∈ delivered
  posted : ∀ resp ∈ delivered, resp ∈ posted

theorem DeliverInv.respond (h : DeliverInv posted inFlight delivered) (resp : Response) :
    DeliverInv (posted ++ [resp]) (inFlight ++ [resp]) delivered where
  flying := h.flying.append (List.Sublist.refl _)
  either x hx := by
    rcases List.mem_append.mp hx with hx | hx
    · exact (h.either x hx).imp (List.mem_append_left _) id
    · exact Or.inl (List.mem_append_right _ hx)
  posted x hx := List.mem_append_left _ (h.posted x hx)

theorem DeliverInv.deliver (h : DeliverInv posted inFlight delivered) (hr : resp ∈ inFlight) :
    DeliverInv posted (inFlight.erase resp) (delivered ++ [resp]) where
  flying := List.erase_sublist.trans h.flying
  either x hx := by
    by_cases hxr : x = resp
    · subst hxr
      exact Or.inr (List.mem_append_right _ List.mem_cons_self)
    · exact (h.either x hx).imp (List.mem_erase_of_ne hxr).mpr (List.mem_append_left _)
  posted x hx := by
    rcases List.mem_append.mp hx with hx | hx
    · exact h.posted x hx
    · obtain rfl := List.mem_singleton.mp hx
      exact h.flying.subset hr

/-- **One step.** A response is posted, then delivered. -/
theorem deliverInv_step (h : DeliverInv s.posted s.inFlight s.delivered) (hstep : Step s ev s') :
    DeliverInv s'.posted s'.inFlight s'.delivered := by
  cases hstep with
  | respond     => exact h.respond _
  | deliver hr  => exact h.deliver hr
  | _           => exact h

/-! ## Together -/

structure Inv (s : State) : Prop where
  call    : CallInv s.calls s.nextCall
  push    : PushInv s.calls s.pushes
  release : ReleaseInv s.releases s.nextRel s.posted s.pushes
  deliver : DeliverInv s.posted s.inFlight s.delivered

theorem inv_initial : Inv initial where
  call    := ⟨nofun, fun _ hr => absurd hr (Nat.not_lt_zero _), nofun⟩
  push    := ⟨nofun, nofun, List.nodup_nil⟩
  release := ⟨nofun, nofun, nofun, nofun⟩
  deliver := ⟨List.Sublist.refl _, nofun, nofun⟩

/-- **One step of the system.** -/
theorem inv_step (h : Inv s) (hstep : system.step s ev = some s') : Inv s' := by
  have hcases := step_cases hstep
  exact ⟨callInv_step h.call hcases, pushInv_step h.call h.push hcases,
    releaseInv_step h.release hcases, deliverInv_step h.deliver hcases⟩

/-- **Every reachable state**, whatever the steps were. -/
theorem inv_of_path {C : State → Event → Prop} {tr : List Event} (h : system.Path C tr s) : Inv s :=
  System.Path.invariant_state inv_initial (fun _ _ _ hinv _ hstep => inv_step hinv hstep) h

/-- A request only moves on, over any number of steps. -/
theorem grows_of_run {es : List Event} (h : Inv s) (hrun : system.run s es = some s')
    (hc : s.calls r = some c) : ∃ c', s'.calls r = some c' ∧ c.Grows c' := by
  have hboth : Inv s' ∧ ∃ c', s'.calls r = some c' ∧ c.Grows c' := by
    refine System.run_invariant (P := fun x => Inv x ∧ ∃ c', x.calls r = some c' ∧ c.Grows c') ?_
      ⟨h, c, hc, Call.Grows.refl c⟩ hrun
    rintro x ev x' ⟨hinv, c₁, hc₁, hg₁⟩ hstep
    obtain ⟨c₂, hc₂, hg₂⟩ := (step_cases hstep).grows hinv.call.fresh hc₁
    exact ⟨inv_step hinv hstep, c₂, hc₂, hg₁.trans hg₂⟩
  exact hboth.2

/-- The entry a release handler responds to was pushed. -/
theorem pushed_of_respond (h : Inv s) (hstep : system.step s (.respond k r) = some s') :
    ∃ e ∈ s.pushes, e.id = r := by
  cases step_cases hstep with
  | respond hx hk =>
      have hacc := h.release.accounts _ _ hk
      refine ⟨_, h.release.held _ _ hk _ (mem_held_of_requests ?_), rfl⟩
      rw [← hacc]
      exact List.mem_append_right _ List.mem_cons_self

end Protocol
end AstraeaGateway
