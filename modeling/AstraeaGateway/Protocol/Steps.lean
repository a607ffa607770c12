import AstraeaGateway.Protocol.Model

/-!
# `Protocol.Steps` — what each step needs and what it leaves behind

`Step` is `step` by cases, guards included; every invariant of the protocol is a case analysis on it. Below
it stand the facts that most of them use: a request never goes back on its way into `myQueue`
(`Step.grows`), and what has been pushed so far, popped or still queued, grows with a push (`pushes_push`)
and stays with a pop (`pushes_pop`).
-/

namespace AstraeaGateway
namespace Protocol

open Transition Gateway

/-- `step` by cases. -/
inductive Step (s : State) : Event → State → Prop
  | tick {now : Int} (h : s.clock ≤ now) : Step s (.tick now) { s with clock := now }
  | startRead {request ipClient : Str} (hx : s.exit = none) :
      Step s (.startRead s.nextCall request ipClient)
        (s.start ⟨true, request, ipClient, .unsent, .running⟩)
  | startWrite {request ipClient : Str} (hx : s.exit = none) :
      Step s (.startWrite s.nextCall request ipClient)
        (s.start ⟨false, request, ipClient, .unsent, .running⟩)
  | sendWrite {r : Nat} {c : Call} (hx : s.exit = none) (hc : s.calls r = some c)
      (hw : c.write = .unsent) : Step s (.sendWrite r) (s.setCall r { c with write := .inFlight })
  | loseWrite {r : Nat} {c : Call} (hc : s.calls r = some c) (hw : c.write = .inFlight) :
      Step s (.loseWrite r) (s.setCall r { c with write := .failed })
  | deliverWrite {r : Nat} {c : Call} (hc : s.calls r = some c) (hw : c.write = .inFlight) :
      Step s (.deliverWrite r)
        { s.setCall r { c with write := .received } with received := s.received ++ [r] }
  | queryOk {r : Nat} {c : Call} {outcome : Outcome} {response : Str} (hx : s.exit = none)
      (hc : s.calls r = some c) (hread : c.readRequest = true) (hrun : c.pushing = .running)
      (hq : queryTarget outcome = .ok response) :
      Step s (.query r outcome)
        { s.setCall r { c with pushing := .ready ⟨readEntry response c.ipClient s.clock, r⟩ } with
          executed := s.execute r c.request outcome }
  | queryExit {r : Nat} {c : Call} {outcome : Outcome} {exit : Exit} (hx : s.exit = none)
      (hc : s.calls r = some c) (hread : c.readRequest = true) (hrun : c.pushing = .running)
      (hq : queryTarget outcome = .error exit) :
      Step s (.query r outcome)
        { s with exit := some exit, executed := s.execute r c.request outcome }
  | stamp {r : Nat} {c : Call} (hx : s.exit = none) (hc : s.calls r = some c)
      (hwrite : c.readRequest = false) (hrun : c.pushing = .running) (hw : c.write ≠ .unsent) :
      Step s (.stamp r)
        (s.setCall r { c with pushing := .ready ⟨writeEntry c.request c.ipClient s.clock, r⟩ })
  | push {r : Nat} {c : Call} {e : Entry} (hx : s.exit = none) (hc : s.calls r = some c)
      (he : c.pushing = .ready e) :
      Step s (.push r) { s.setCall r { c with pushing := .pushed } with myQueue := s.myQueue ++ [e] }
  | postRelease (hr : s.received ≠ []) :
      Step s (.postRelease s.nextRel)
        { s.goto s.nextRel s.received .inFlight with nextRel := s.nextRel + 1 }
  | copy {k : Nat} {received : List Nat} (hx : s.exit = none)
      (hk : s.releases k = some ⟨received, .inFlight⟩) :
      Step s (.copy k) (s.goto k received (.copied s.myQueue s.clock))
  | scan {k : Nat} {received : List Nat} {duplicate : List Entry} {since : Int} {clock : Clock}
      {out : ReadOut Entry} (hx : s.exit = none)
      (hk : s.releases k = some ⟨received, .copied duplicate since⟩) (ht : since ≤ clock 0)
      (hout : readLoop Entry.toRequest clock duplicate ⟨[], 0, 0⟩ = some out) :
      Step s (.scan k clock) (s.goto k received (.popping out.requests out.countPops))
  | scanCrash {k : Nat} {received : List Nat} {duplicate : List Entry} {since : Int} {clock : Clock}
      (hx : s.exit = none) (hk : s.releases k = some ⟨received, .copied duplicate since⟩)
      (ht : since ≤ clock 0)
      (hout : readLoop Entry.toRequest clock duplicate ⟨[], 0, 0⟩ = none) :
      Step s (.scan k clock) { s with exit := some .emptyQueue }
  | popNothing {k : Nat} {received : List Nat} {requests : List Entry} {n : Nat} (hx : s.exit = none)
      (hk : s.releases k = some ⟨received, .popping requests (n + 1)⟩) (hq : s.myQueue = []) :
      Step s (.pop k) (s.goto k received (.popping requests n))
  | pop {k : Nat} {received : List Nat} {requests : List Entry} {n : Nat} {e : Entry}
      {q : List Entry} (hx : s.exit = none)
      (hk : s.releases k = some ⟨received, .popping requests (n + 1)⟩) (hq : s.myQueue = e :: q) :
      Step s (.pop k)
        { s.goto k received (.popping requests n) with myQueue := q, popped := s.popped ++ [e] }
  | ret {k : Nat} {received : List Nat} {requests : List Entry} (hx : s.exit = none)
      (hk : s.releases k = some ⟨received, .popping requests 0⟩) :
      Step s (.ret k) (s.goto k received (.responding requests requests))
  | respond {k : Nat} {received : List Nat} {requests : List Entry} {e : Entry} {todo : List Entry}
      (hx : s.exit = none) (hk : s.releases k = some ⟨received, .responding requests (e :: todo)⟩) :
      Step s (.respond k e.id)
        { s.goto k received (.responding requests todo) with
          posted := s.posted ++ [⟨k, e, answer e.toRequest⟩],
          inFlight := s.inFlight ++ [⟨k, e, answer e.toRequest⟩] }
  | finish {k : Nat} {received : List Nat} {requests : List Entry} (hx : s.exit = none)
      (hk : s.releases k = some ⟨received, .responding requests []⟩) :
      Step s (.finish k) (s.goto k received (.finished requests))
  | deliver {resp : Response} (hr : resp ∈ s.inFlight) :
      Step s (.deliver resp)
        { s with inFlight := s.inFlight.erase resp, delivered := s.delivered ++ [resp] }

theorem step_cases {s s' : State} {e : Event} (h : system.step s e = some s') : Step s e s' := by
  change step s e = some s' at h
  cases e with
  | tick now =>
      simp only [step] at h
      split at h
      · exact Option.some.inj h ▸ Step.tick ‹_›
      · cases h
  | startRead r request ipClient =>
      simp only [step] at h
      split at h
      · next hif =>
          obtain ⟨hx, rfl⟩ := hif
          exact Option.some.inj h ▸ Step.startRead hx
      · cases h
  | startWrite r request ipClient =>
      simp only [step] at h
      split at h
      · next hif =>
          obtain ⟨hx, rfl⟩ := hif
          exact Option.some.inj h ▸ Step.startWrite hx
      · cases h
  | sendWrite r =>
      simp only [step] at h
      split at h
      · next c hc =>
          split at h
          · next hif => exact Option.some.inj h ▸ Step.sendWrite hif.1 hc hif.2
          · cases h
      · cases h
  | loseWrite r =>
      simp only [step] at h
      split at h
      · next c hc =>
          split at h
          · exact Option.some.inj h ▸ Step.loseWrite hc ‹_›
          · cases h
      · cases h
  | deliverWrite r =>
      simp only [step] at h
      split at h
      · next c hc =>
          split at h
          · exact Option.some.inj h ▸ Step.deliverWrite hc ‹_›
          · cases h
      · cases h
  | query r outcome =>
      simp only [step] at h
      split at h
      · next c hc =>
          split at h
          · next hif =>
              split at h
              · exact Option.some.inj h ▸ Step.queryOk hif.1 hc hif.2.1 hif.2.2 ‹_›
              · exact Option.some.inj h ▸ Step.queryExit hif.1 hc hif.2.1 hif.2.2 ‹_›
          · cases h
      · cases h
  | stamp r =>
      simp only [step] at h
      split at h
      · next c hc =>
          split at h
          · next hif =>
              exact Option.some.inj h ▸ Step.stamp hif.1 hc hif.2.1 hif.2.2.1 hif.2.2.2
          · cases h
      · cases h
  | push r =>
      simp only [step] at h
      split at h
      · next c hc =>
          split at h
          · exact Option.some.inj h ▸ Step.push ‹_› hc ‹_›
          · cases h
      · cases h
  | postRelease k =>
      simp only [step] at h
      split at h
      · next hif =>
          obtain ⟨rfl, hr⟩ := hif
          exact Option.some.inj h ▸ Step.postRelease hr
      · cases h
  | copy k =>
      simp only [step] at h
      split at h
      · exact Option.some.inj h ▸ Step.copy ‹_› ‹_›
      · cases h
  | scan k clock =>
      simp only [step] at h
      split at h
      · next hx hk =>
          split at h
          · split at h
            · exact Option.some.inj h ▸ Step.scan hx hk ‹_› ‹_›
            · exact Option.some.inj h ▸ Step.scanCrash hx hk ‹_› ‹_›
          · cases h
      · cases h
  | pop k =>
      simp only [step] at h
      split at h
      · next hx hk =>
          split at h
          · exact Option.some.inj h ▸ Step.popNothing hx hk ‹_›
          · exact Option.some.inj h ▸ Step.pop hx hk ‹_›
      · cases h
  | ret k =>
      simp only [step] at h
      split at h
      · exact Option.some.inj h ▸ Step.ret ‹_› ‹_›
      · cases h
  | respond k r =>
      simp only [step] at h
      split at h
      · next hx hk =>
          split at h
          · next hid =>
              subst hid
              exact Option.some.inj h ▸ Step.respond hx hk
          · cases h
      · cases h
  | finish k =>
      simp only [step] at h
      split at h
      · exact Option.some.inj h ▸ Step.finish ‹_› ‹_›
      · cases h
  | deliver resp =>
      simp only [step] at h
      split at h
      · exact Option.some.inj h ▸ Step.deliver ‹_›
      · cases h

/-! ## Requests on their way -/

/-- A request later on: who asked for what stays, an entry that is built stays until it is pushed, and what
    is pushed stays pushed. -/
structure Call.Grows (c c' : Call) : Prop where
  readRequest : c'.readRequest = c.readRequest
  request     : c'.request = c.request
  ipClient    : c'.ipClient = c.ipClient
  ready       : ∀ e, c.pushing = .ready e → c'.pushing = .ready e ∨ c'.pushing = .pushed
  pushed      : c.pushing = .pushed → c'.pushing = .pushed

variable {s s' : State} {e : Event} {calls : Nat → Option Call} {r r₀ : Nat} {c c' c₀ c₁ : Call}

theorem Call.Grows.refl (c : Call) : c.Grows c := ⟨rfl, rfl, rfl, fun _ => Or.inl, id⟩

theorem Call.Grows.trans {c'' : Call} (h : c.Grows c') (h' : c'.Grows c'') : c.Grows c'' where
  readRequest := h'.readRequest.trans h.readRequest
  request     := h'.request.trans h.request
  ipClient    := h'.ipClient.trans h.ipClient
  ready e he  := (h.ready e he).elim (h'.ready e) (fun hp => Or.inr (h'.pushed hp))
  pushed hp   := h'.pushed (h.pushed hp)

/-- The step of a task or handler that builds the entry. -/
theorem Call.Grows.build (hrun : c.pushing = .running) (e : Entry) :
    c.Grows { c with pushing := .ready e } := by
  refine ⟨rfl, rfl, rfl, fun x hx => ?_, fun hp => ?_⟩
  · rw [hrun] at hx
    cases hx
  · rw [hrun] at hp
    cases hp

/-- One request moves on; the others stay as they are. -/
theorem grows_update (h₀ : calls r₀ = some c₀) (hg : c₀.Grows c₁) (hc : calls r = some c) :
    ∃ c', Function.update calls r₀ (some c₁) r = some c' ∧ c.Grows c' :=
  update_keeps h₀ (fun hg₀ => hg₀.trans hg) ⟨c, hc, Call.Grows.refl c⟩

/-- The number of a new request is fresh. -/
theorem grows_start (hfresh : calls r₀ = none) (hc : calls r = some c) :
    ∃ c', Function.update calls r₀ (some c₁) r = some c' ∧ c.Grows c' :=
  ⟨c, update_of_fresh hfresh hc c₁, Call.Grows.refl c⟩

/-- **A request only moves on.** -/
theorem Step.grows (hfresh : s.calls s.nextCall = none) (h : Step s e s') (hc : s.calls r = some c) :
    ∃ c', s'.calls r = some c' ∧ c.Grows c' := by
  cases h with
  | startRead         => exact grows_start hfresh hc
  | startWrite        => exact grows_start hfresh hc
  | sendWrite _ h₀    => exact grows_update h₀ ⟨rfl, rfl, rfl, fun _ => Or.inl, id⟩ hc
  | loseWrite h₀      => exact grows_update h₀ ⟨rfl, rfl, rfl, fun _ => Or.inl, id⟩ hc
  | deliverWrite h₀   => exact grows_update h₀ ⟨rfl, rfl, rfl, fun _ => Or.inl, id⟩ hc
  | queryOk _ h₀ _ hrun => exact grows_update h₀ (Call.Grows.build hrun _) hc
  | stamp _ h₀ _ hrun => exact grows_update h₀ (Call.Grows.build hrun _) hc
  | push _ h₀         =>
      exact grows_update h₀ ⟨rfl, rfl, rfl, fun _ _ => Or.inr rfl, fun _ => rfl⟩ hc
  | _                 => exact ⟨c, hc, Call.Grows.refl c⟩

/-- **Once its process has ended, the gateway does nothing**: what is queued stays queued, and nothing is
    answered. -/
theorem Step.stopped (hx : s.exit ≠ none) (h : Step s e s') :
    s'.exit = s.exit ∧ s'.myQueue = s.myQueue ∧ s'.posted = s.posted := by
  cases h with
  -- the steps of the network and of Astraea need no gateway process
  | tick | loseWrite | deliverWrite | postRelease | deliver => exact ⟨rfl, rfl, rfl⟩
  | _ => exact absurd ‹s.exit = none› hx

/-! ## What has been pushed so far -/

/-- All entries ever pushed, in order: those popped, then those still queued. -/
def State.pushes (s : State) : List Entry := s.popped ++ s.myQueue

theorem pushes_push (s : State) (e : Entry) : s.popped ++ (s.myQueue ++ [e]) = s.pushes ++ [e] :=
  (List.append_assoc ..).symm

theorem pushes_pop {x : Entry} {q : List Entry} (hq : s.myQueue = x :: q) :
    s.popped ++ [x] ++ q = s.pushes := by
  unfold State.pushes
  rw [hq]
  exact (List.append_cons ..).symm

theorem pushes_of_empty (hq : s.myQueue = []) : s.pushes = s.popped := by
  unfold State.pushes
  rw [hq, List.append_nil]

end Protocol
end AstraeaGateway
