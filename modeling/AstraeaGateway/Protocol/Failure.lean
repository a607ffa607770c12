import AstraeaGateway.Protocol.Invariant

/-!
# `Protocol.Failure` — what a query does to the requests of others

Every outcome of a query but a result set ends the gateway's process, and with it every request in
`myQueue`, whoever sent it (`pendingRequest`). With a result set the task touches the queue once, to add
its own entry at the end. `query_outcome` says both, for every reachable state and whatever the others do
between the task's query and its push.
-/

namespace AstraeaGateway
namespace Protocol

open Transition Gateway

/-- The requests whose push is in a schedule, in order. -/
def pushesIn (es : List Event) : List Nat :=
  es.filterMap (fun | .push r => some r | _ => none)

/-- The schedule does not pop `myQueue`. -/
def NoPop (es : List Event) : Prop := ∀ k, Event.pop k ∉ es

/-- **The task adds its own entry and nothing else.** `s` is the state before the query of `r`, `s'` the one
    after it; the rest of the task is its push, at any later time. -/
structure AddsItsEntry (s s' : State) (r : Nat) (result : ResultSet) : Prop where
  running : s'.exit = none
  queue   : s'.myQueue = s.myQueue
  canPush : ∃ s'', system.step s' (.push r) = some s''
  pushed  : ∀ es s'', NoPop es → system.run s' (es ++ [.push r]) = some s'' → s''.exit = none ∧
    ∃ c others, s.calls r = some c ∧ others.map Entry.id = pushesIn es ∧
      s''.myQueue = s.myQueue ++ others ++ [⟨readEntry (resultLoop result) c.ipClient s.clock, r⟩]

/-- **The process ends**: nothing is queued, popped or answered any more. -/
structure EndsProcess (s s' : State) : Prop where
  exited : s'.exit = some .failure
  queue  : s'.myQueue = s.myQueue
  after  : ∀ es s'', system.run s' es = some s'' →
    s''.exit = some .failure ∧ s''.myQueue = s.myQueue ∧ s''.posted = s.posted

variable {s s' s'' : State} {ev : Event} {es tr : List Event} {r : Nat} {result : ResultSet}

/-! ## The queue between two pops -/

/-- Without a pop, a step leaves the queue as it is or adds the entry of the request it pushes. -/
theorem Step.queue (hcall : CallInv s.calls s.nextCall) (hpop : ∀ k, ev ≠ .pop k) (h : Step s ev s') :
    ∃ others, others.map Entry.id = pushesIn [ev] ∧ s'.myQueue = s.myQueue ++ others := by
  cases h with
  | push _ hc he =>
      refine ⟨[_], ?_, rfl⟩
      rw [List.map_singleton, (hcall.built _ _ _ hc he).id]
      rfl
  | pop => exact absurd rfl (hpop _)
  | _ => exact ⟨[], rfl, (List.append_nil _).symm⟩

theorem queue_of_run (hinv : Inv s) (hpop : NoPop es) (hrun : system.run s es = some s') :
    ∃ others, others.map Entry.id = pushesIn es ∧ s'.myQueue = s.myQueue ++ others := by
  induction es generalizing s with
  | nil =>
      obtain rfl := Option.some.inj hrun
      exact ⟨[], rfl, (List.append_nil _).symm⟩
  | cons ev es ih =>
      obtain ⟨s₁, hstep, hrest⟩ := Option.bind_eq_some_iff.mp hrun
      have hev : ∀ k, ev ≠ .pop k := by
        rintro k rfl
        exact hpop k List.mem_cons_self
      -- what the first step adds stands in front of what the rest of the schedule adds
      obtain ⟨first, hid, hq⟩ := (step_cases hstep).queue hinv.call hev
      obtain ⟨rest, hids, hqs⟩ := ih (inv_step hinv hstep)
        (fun k hk => hpop k (List.mem_cons_of_mem _ hk)) hrest
      refine ⟨first ++ rest, ?_, by rw [hqs, hq, List.append_assoc]⟩
      rw [List.map_append, hid, hids]
      exact (List.filterMap_append ..).symm

theorem stopped_of_run (hx : s.exit ≠ none) (hrun : system.run s es = some s') :
    s'.exit = s.exit ∧ s'.myQueue = s.myQueue ∧ s'.posted = s.posted := by
  refine System.run_invariant
    (P := fun x => x.exit = s.exit ∧ x.myQueue = s.myQueue ∧ x.posted = s.posted) ?_ ⟨rfl, rfl, rfl⟩ hrun
  rintro x ev x' ⟨hx₁, hq₁, hp₁⟩ hstep
  obtain ⟨hx₂, hq₂, hp₂⟩ := (step_cases hstep).stopped (by rw [hx₁]; exact hx)
  exact ⟨hx₂.trans hx₁, hq₂.trans hq₁, hp₂.trans hp₁⟩

/-! ## The two ends of a task -/

/-- A push takes the entry its task has built, and adds it at the end. -/
theorem push_effect (h : system.step s (.push r) = some s') : s.exit = none ∧ s'.exit = none ∧
    ∃ c e, s.calls r = some c ∧ c.pushing = .ready e ∧ s'.myQueue = s.myQueue ++ [e] := by
  cases step_cases h with
  | push hx hc he => exact ⟨hx, hx, _, _, hc, he, rfl⟩

theorem push_enabled {c : Call} {e : Entry} (hx : s.exit = none) (hc : s.calls r = some c)
    (he : c.pushing = .ready e) : ∃ s', system.step s (.push r) = some s' := by
  refine ⟨{ s.setCall r { c with pushing := .pushed } with myQueue := s.myQueue ++ [e] }, ?_⟩
  show step s (.push r) = some _
  simp only [step, hc, hx, he]

/-- A query that returns a result set leaves its task ready to push. -/
theorem query_stored (h : system.step s (.query r (.stored result)) = some s') :
    s'.exit = none ∧ s'.myQueue = s.myQueue ∧ ∃ c, s.calls r = some c ∧ s'.calls r =
      some { c with pushing := .ready ⟨readEntry (resultLoop result) c.ipClient s.clock, r⟩ } := by
  cases step_cases h with
  | queryOk hx hc _ _ hq =>
      obtain rfl := Except.ok.inj hq
      exact ⟨hx, rfl, _, hc, Function.update_self ..⟩
  | queryExit _ _ _ _ hq => cases hq

/-- A failing query ends the process at once. -/
theorem query_failure {outcome : Outcome} (hfail : queryTarget outcome = .error .failure)
    (h : system.step s (.query r outcome) = some s') :
    s'.exit = some .failure ∧ s'.myQueue = s.myQueue ∧ s'.posted = s.posted := by
  cases step_cases h with
  | queryOk _ _ _ _ hq =>
      rw [hfail] at hq
      cases hq
  | queryExit _ _ _ _ hq =>
      obtain rfl := Except.error.inj (hfail.symm.trans hq)
      exact ⟨rfl, rfl, rfl⟩

/-- Whatever the others do, the task pushes the entry it built. -/
theorem pushed_after {c : Call} {e : Entry} (hinv : Inv s) (hc : s.calls r = some c)
    (he : c.pushing = .ready e) (hpop : NoPop es)
    (hrun : system.run s (es ++ [.push r]) = some s') : s'.exit = none ∧
    ∃ others, others.map Entry.id = pushesIn es ∧ s'.myQueue = s.myQueue ++ others ++ [e] := by
  rw [System.run_append] at hrun
  obtain ⟨s₁, hes, hlast⟩ := Option.bind_eq_some_iff.mp hrun
  rw [System.run_cons] at hlast
  obtain ⟨s₂, hstep, hnil⟩ := Option.bind_eq_some_iff.mp hlast
  obtain rfl := Option.some.inj hnil
  obtain ⟨_, hx, c₁, e₁, hc₁, he₁, hq⟩ := push_effect hstep
  obtain ⟨c', hc', hg⟩ := grows_of_run hinv hes hc
  obtain rfl := Option.some.inj (hc'.symm.trans hc₁)
  -- nobody else touches the entry between the query and the push
  have hsame : e₁ = e := by
    rcases hg.ready e he with hr | hp
    · exact Pushing.ready.inj (he₁.symm.trans hr)
    · rw [he₁] at hp
      cases hp
  obtain ⟨others, hids, hqs⟩ := queue_of_run hinv hpop hes
  exact ⟨hx, others, hids, by rw [hq, hqs, hsame]⟩

/-- **A failing query hurts everybody; a successful one nobody.** In every reachable state: with a result
    set, the task adds its own entry to the queue and the gateway goes on; when `mysql_init`, the connection
    or the query fails, the process ends and nothing that is queued is answered any more. -/
theorem query_outcome {tr : List Event} {s : State} (h : system.Path System.Any tr s) (r : Nat) :
    (∀ result s', system.step s (.query r (.stored result)) = some s' → AddsItsEntry s s' r result) ∧
    (∀ outcome s', outcome = .nullConn ∨ outcome = .connectFails ∨ outcome = .queryFails →
      system.step s (.query r outcome) = some s' → EndsProcess s s') := by
  constructor
  · intro result s' hstep
    obtain ⟨hx, hq, c, hc, hc'⟩ := query_stored hstep
    refine ⟨hx, hq, push_enabled hx hc' rfl, ?_⟩
    intro es s'' hpop hrun
    obtain ⟨hx'', others, hids, hqs⟩ := pushed_after (inv_step (inv_of_path h) hstep) hc' rfl hpop hrun
    rw [hq] at hqs
    exact ⟨hx'', c, others, hc, hids, hqs⟩
  · intro outcome s' hout hstep
    have hfail : queryTarget outcome = .error .failure := by
      rcases hout with rfl | rfl | rfl <;> rfl
    obtain ⟨hx, hq, hp⟩ := query_failure hfail hstep
    refine ⟨hx, hq, ?_⟩
    intro es s'' hrun
    obtain ⟨hx'', hq'', hp''⟩ := stopped_of_run (by rw [hx]; exact Option.some_ne_none _) hrun
    exact ⟨hx''.trans hx, hq''.trans hq, hp''.trans hp⟩

/-- Client `a` waits for its answer when the handler of client `b`'s request has started its task. -/
def pendingRequest : List Event :=
  [.startRead 0 (lit "SELECT") (lit "a"), .query 0 .noRows, .push 0, .startRead 1 (lit "SELEC") (lit "b")]

theorem query_outcome_pendingRequest : ∃ s s' s₁, system.Path System.Any pendingRequest s ∧
    system.step s (.query 1 .noRows) = some s' ∧ AddsItsEntry s s' 1 ⟨1, []⟩ ∧
    system.step s (.query 1 .queryFails) = some s₁ ∧ EndsProcess s s₁ := by
  obtain ⟨s, hs, hp⟩ := System.exists_path_of_run system pendingRequest
    (fun s => (system.step s (.query 1 .noRows)).isSome && (system.step s (.query 1 .queryFails)).isSome)
    (by decide)
  rw [Bool.and_eq_true] at hp
  obtain ⟨s', hs'⟩ := Option.isSome_iff_exists.mp hp.1
  obtain ⟨s₁, hs₁⟩ := Option.isSome_iff_exists.mp hp.2
  exact ⟨s, s', s₁, hs, hs', (query_outcome hs 1).1 _ _ hs', hs₁,
    (query_outcome hs 1).2 _ _ (Or.inr (Or.inr rfl)) hs₁⟩

/-- **The damage falls on others.** The query of client `b` is rejected while a request of client `a` is
    queued, and the process ends. -/
theorem rejected_ends_process : ∃ s s' e, system.Path System.Any pendingRequest s ∧
    system.step s (.query 1 .queryFails) = some s' ∧ e ∈ s.myQueue ∧ e.ipClient = lit "a" ∧
    s'.exit ≠ none := by
  obtain ⟨s, hs, hp⟩ := System.exists_path_of_run system pendingRequest
    (fun s => decide (⟨readEntry [] (lit "a") 0, 0⟩ ∈ s.myQueue) &&
      (system.step s (.query 1 .queryFails)).any (fun s' => s'.exit.isSome)) (by decide)
  rw [Bool.and_eq_true, Option.any_eq_true] at hp
  obtain ⟨hq, s', hs', hx⟩ := hp
  refine ⟨s, s', _, hs, hs', of_decide_eq_true hq, rfl, ?_⟩
  rw [← Option.isSome_iff_ne_none]
  exact hx

end Protocol
end AstraeaGateway
