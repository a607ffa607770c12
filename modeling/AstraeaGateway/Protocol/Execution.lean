import AstraeaGateway.Protocol.Invariant

/-!
# `Protocol.Execution` — is a request executed before it is answered?

A read request is executed by its database task, before it is queued. A write request is queued with its
text, and the branch of `release` that should execute it posts the response without doing so. `ExecInv`
counts the executions of every request, whatever the schedule: one for a read request that has got past its
query, none for a write request.
-/

namespace AstraeaGateway
namespace Protocol

open Transition Gateway

/-- How often each request has been executed on the target database. -/
structure ExecInv (exit : Option Exit) (calls : Nat → Option Call) (executed : List (Nat × Str)) :
    Prop where
  fresh : ∀ r text, calls r = none → executed.count (r, text) = 0
  idle  : ∀ r c, calls r = some c → c.pushing = .running → exit = none →
    executed.count (r, c.request) = 0
  done  : ∀ r c, calls r = some c → c.pushing ≠ .running →
    executed.count (r, c.request) = if c.readRequest then 1 else 0

variable {exit : Option Exit} {calls : Nat → Option Call} {executed : List (Nat × Str)} {n r k : Nat}
variable {c c' : Call} {s s' s'' : State} {ev : Event} {tr es : List Event}

/-- An execution of `r` is none of another request. -/
theorem execute_count_ne {j : Nat} (hj : j ≠ r) (request text : Str) (outcome : Outcome) :
    (s.execute r request outcome).count (j, text) = s.executed.count (j, text) := by
  unfold State.execute
  split
  · rw [List.count_append, List.count_singleton]
    simp [Ne.symm hj]
  · rfl

theorem execute_count_self {request : Str} {outcome : Outcome} (h : outcome.accepted = true) :
    (s.execute r request outcome).count (r, request) = s.executed.count (r, request) + 1 := by
  unfold State.execute
  rw [if_pos h, List.count_append, List.count_singleton]
  simp

theorem ExecInv.start (h : ExecInv exit calls executed) (hfresh : calls n = none)
    (hc : c.pushing = .running) : ExecInv exit (Function.update calls n (some c)) executed where
  fresh r text hr := h.fresh r text (update_eq_none hr).2
  idle r x hx hrun hexit := by
    rcases update_eq_some hx with ⟨rfl, _⟩ | ⟨_, hx⟩
    · exact h.fresh r _ hfresh
    · exact h.idle r x hx hrun hexit
  done r x hx hdone := by
    rcases update_eq_some hx with ⟨_, rfl⟩ | ⟨_, hx⟩
    · exact absurd hc hdone
    · exact h.done r x hx hdone

/-- A request that moves on without a query. -/
theorem ExecInv.update (h : ExecInv exit calls executed) (hc : calls r = some c)
    (hread : c'.readRequest = c.readRequest) (hreq : c'.request = c.request)
    (hrun : c'.pushing = .running ↔ c.pushing = .running) :
    ExecInv exit (Function.update calls r (some c')) executed where
  fresh j text hj := h.fresh j text (update_eq_none hj).2
  idle j x hx hx' hexit := by
    rcases update_eq_some hx with ⟨rfl, rfl⟩ | ⟨_, hx⟩
    · rw [hreq]
      exact h.idle j c hc (hrun.mp hx') hexit
    · exact h.idle j x hx hx' hexit
  done j x hx hx' := by
    rcases update_eq_some hx with ⟨rfl, rfl⟩ | ⟨_, hx⟩
    · rw [hreq, hread]
      exact h.done j c hc (fun hc' => hx' (hrun.mpr hc'))
    · exact h.done j x hx hx'

/-- A write request is built without a query. -/
theorem ExecInv.stamp {e : Entry} (h : ExecInv none calls executed) (hc : calls r = some c)
    (hwrite : c.readRequest = false) (hrun : c.pushing = .running) :
    ExecInv none (Function.update calls r (some { c with pushing := .ready e })) executed where
  fresh j text hj := h.fresh j text (update_eq_none hj).2
  idle j x hx hx' hexit := by
    rcases update_eq_some hx with ⟨_, rfl⟩ | ⟨_, hx⟩
    · cases hx'
    · exact h.idle j x hx hx' hexit
  done j x hx hx' := by
    rcases update_eq_some hx with ⟨rfl, rfl⟩ | ⟨_, hx⟩
    · -- nothing ran its text while it was `running`, and nothing will
      show executed.count (j, c.request) = if c.readRequest then 1 else 0
      rw [h.idle j c hc hrun rfl, hwrite]
      rfl
    · exact h.done j x hx hx'

/-- A query that is answered: the one execution of its request. -/
theorem ExecInv.query {e : Entry} {outcome : Outcome} (h : ExecInv none s.calls s.executed)
    (hc : s.calls r = some c) (hread : c.readRequest = true) (hrun : c.pushing = .running)
    (hacc : outcome.accepted = true) :
    ExecInv none (Function.update s.calls r (some { c with pushing := .ready e }))
      (s.execute r c.request outcome) where
  fresh j text hj := by
    obtain ⟨hjr, hj⟩ := update_eq_none hj
    rw [execute_count_ne hjr]
    exact h.fresh j text hj
  idle j x hx hx' hexit := by
    rcases update_eq_some hx with ⟨_, rfl⟩ | ⟨hjr, hx⟩
    · cases hx'
    · rw [execute_count_ne hjr]
      exact h.idle j x hx hx' hexit
  done j x hx hx' := by
    rcases update_eq_some hx with ⟨rfl, rfl⟩ | ⟨hjr, hx⟩
    · show (s.execute j c.request outcome).count (j, c.request) = if c.readRequest then 1 else 0
      rw [execute_count_self hacc, h.idle j c hc hrun rfl, hread]
      rfl
    · rw [execute_count_ne hjr]
      exact h.done j x hx hx'

/-- A process that ends executes nothing more, but may have executed its last query. -/
theorem ExecInv.queryExit {exit : Exit} {outcome : Outcome} (h : ExecInv none s.calls s.executed)
    (hc : s.calls r = some c) (hrun : c.pushing = .running) :
    ExecInv (some exit) s.calls (s.execute r c.request outcome) where
  fresh j text hj := by
    have hjr : j ≠ r := by
      rintro rfl
      rw [hc] at hj
      cases hj
    rw [execute_count_ne hjr]
    exact h.fresh j text hj
  idle _ _ _ _ hexit := by cases hexit
  done j x hx hx' := by
    have hjr : j ≠ r := by
      rintro rfl
      obtain rfl := Option.some.inj (hc.symm.trans hx)
      exact hx' hrun
    rw [execute_count_ne hjr]
    exact h.done j x hx hx'

theorem execInv_step (hcall : CallInv s.calls s.nextCall) (h : ExecInv s.exit s.calls s.executed)
    (hstep : Step s ev s') : ExecInv s'.exit s'.calls s'.executed := by
  cases hstep with
  | startRead                 => exact h.start hcall.fresh rfl
  | startWrite                => exact h.start hcall.fresh rfl
  | sendWrite _ hc            => exact h.update hc rfl rfl Iff.rfl
  | loseWrite hc              => exact h.update hc rfl rfl Iff.rfl
  | deliverWrite hc           => exact h.update hc rfl rfl Iff.rfl
  | queryOk hx hc hread hrun hq =>
      rw [hx] at h
      show ExecInv s.exit _ _
      rw [hx]
      exact h.query hc hread hrun (accepted_of_queryTarget hq)
  | queryExit hx hc _ hrun    =>
      rw [hx] at h
      exact h.queryExit hc hrun
  | stamp hx hc hwrite hrun   =>
      rw [hx] at h
      show ExecInv s.exit _ _
      rw [hx]
      exact h.stamp hc hwrite hrun
  | push _ hc he              => exact h.update hc rfl rfl (by simp [he])
  | scanCrash                 => exact ⟨h.fresh, nofun, h.done⟩
  | _                         => exact h

theorem execInv_initial : ExecInv initial.exit initial.calls initial.executed :=
  ⟨fun _ _ _ => rfl, nofun, nofun⟩

theorem execInv_of_path {C : State → Event → Prop} (h : system.Path C tr s) :
    ExecInv s.exit s.calls s.executed := by
  have hboth : Inv s ∧ ExecInv s.exit s.calls s.executed := by
    refine System.Path.invariant_state (P := fun s => Inv s ∧ ExecInv s.exit s.calls s.executed)
      ⟨inv_initial, execInv_initial⟩ ?_ h
    rintro s ev s' ⟨hinv, he⟩ _ hstep
    exact ⟨inv_step hinv hstep, execInv_step hinv.call he (step_cases hstep)⟩
  exact hboth.2

/-- **Every answered request was executed — if it is a read.** When the release handler posts the response
    for `r`, its text has been executed once, and it is never executed again, exactly if `r` came in as a
    read request. -/
theorem respond_executed_iff {tr es : List Event} {s s' s'' : State} {k r : Nat}
    (h : system.Path System.Any tr s) (hstep : system.step s (.respond k r) = some s')
    (hrun : system.run s' es = some s'') : ∃ c, s.calls r = some c ∧
    ((s.executed.count (r, c.request) = 1 ∧ s''.executed.count (r, c.request) = 1)
      ↔ c.readRequest = true) := by
  have hinv := inv_of_path h
  obtain ⟨e, he, rfl⟩ := pushed_of_respond hinv hstep
  obtain ⟨c, hc, hp, _⟩ := hinv.push.pushed e he
  -- at both ends the request is past `running`, so the count is the one `done` states
  have hlong : system.run s (.respond k e.id :: es) = some s'' := by
    rw [System.run_cons, hstep]
    exact hrun
  obtain ⟨c'', hc'', hg⟩ := grows_of_run hinv hlong hc
  have hdone : s.executed.count (e.id, c.request) = if c.readRequest then 1 else 0 :=
    (execInv_of_path h).done e.id c hc (by rw [hp]; exact Pushing.noConfusion)
  have hdone'' : s''.executed.count (e.id, c.request) = if c.readRequest then 1 else 0 := by
    have hpath := System.Path.extend h (System.meets_any system s _) hlong
    rw [← hg.request, ← hg.readRequest]
    exact (execInv_of_path hpath).done e.id c'' hc'' (by rw [hg.pushed hp]; exact Pushing.noConfusion)
  refine ⟨c, hc, ?_⟩
  rw [hdone, hdone'']
  cases c.readRequest <;> simp

/-- One read request, up to its response. -/
def readAnswered : List Event :=
  [.startRead 0 (lit "SELECT") (lit "a"), .sendWrite 0, .query 0 .noRows, .push 0, .deliverWrite 0,
   .postRelease 0, .copy 0, .scan 0 (Clock.held 0), .pop 0, .ret 0]

theorem respond_executed_iff_read : ∃ s s', system.Path System.Any readAnswered s ∧
    system.step s (.respond 0 0) = some s' ∧ ∃ c, s.calls 0 = some c ∧
    ((s.executed.count (0, c.request) = 1 ∧ s'.executed.count (0, c.request) = 1)
      ↔ c.readRequest = true) := by
  obtain ⟨s, hs, hp⟩ := System.exists_path_of_run system readAnswered
    (fun s => (system.step s (.respond 0 0)).isSome) (by decide)
  obtain ⟨s', hs'⟩ := Option.isSome_iff_exists.mp hp
  exact ⟨s, s', hs, hs', respond_executed_iff hs hs' (System.run_nil system s')⟩

/-- One write request, up to its response. -/
def writeAnswered : List Event :=
  [.startWrite 0 (lit "INSERT") (lit "a"), .sendWrite 0, .stamp 0, .push 0, .deliverWrite 0,
   .postRelease 0, .copy 0, .scan 0 (Clock.held 0), .pop 0, .ret 0]

/-- **A write is answered and was never executed.** -/
theorem writeAnswered_not_executed : ∃ s s', system.Path System.Any writeAnswered s ∧
    system.step s (.respond 0 0) = some s' ∧ ∃ c, s.calls 0 = some c ∧
    s.executed.count (0, c.request) = 0 := by
  obtain ⟨s, hs, hp⟩ := System.exists_path_of_run system writeAnswered
    (fun s => (system.step s (.respond 0 0)).isSome && (s.calls 0).isSome && s.executed.isEmpty)
    (by decide)
  simp only [Bool.and_eq_true, List.isEmpty_iff] at hp
  obtain ⟨⟨hstep, hcall⟩, hexec⟩ := hp
  obtain ⟨s', hs'⟩ := Option.isSome_iff_exists.mp hstep
  obtain ⟨c, hc⟩ := Option.isSome_iff_exists.mp hcall
  refine ⟨s, s', hs, hs', c, hc, ?_⟩
  rw [hexec]
  rfl

end Protocol
end AstraeaGateway
