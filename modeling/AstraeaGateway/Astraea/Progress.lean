import AstraeaGateway.Astraea.Mutex
import AstraeaGateway.Progress

/-!
# `Astraea.Progress` — the `write` handlers neither block each other nor run for ever

Each handler has a bounded number of steps before it (`Pc.left`), and whoever holds the mutex can always take
one of them, so a burst of writes comes to rest by itself (`comes_to_rest`): in at most seven steps a write,
with every handler finished, the flag reset and the mutex free.
-/

namespace AstraeaGateway
namespace Astraea

open Transition

/-- A step of a handler; the other events are new writes. -/
def Event.byHandler : Event → Prop
  | .receive _ => False
  | _          => True

/-- The steps that a handler has still to take, if it goes on to post a release wherever it can. -/
def Pc.left : Pc → Nat
  | .entered  => 7
  | .logged   => 6
  | .locked   => 5
  | .claimed  => 4
  | .waiting  => 3
  | .waited   => 2
  | .busy     => 1
  | .posted   => 1
  | .finished => 0

theorem Pc.left_le (pc : Pc) : pc.left ≤ 7 := by
  cases pc <;> decide

def Handler.left (h : Handler) : Nat := h.pc.left

/-- The steps that all handlers have still to take. -/
def State.left (s : State) : Nat := work Handler.left s.handlers s.received

/-- Every handler has returned, and the globals are as they were at the start. -/
structure AtRest (s : State) : Prop where
  quiet : s.Quiet
  flag  : s.ackProcessIsRunning = false
  owner : s.owner = none

variable {hs : Nat → Option Handler} {n w : Nat} {form : Str} {pc pc₀ : Pc} {s s' : State} {e : Event}
variable {tr es : List Event}

/-- Every write received has a handler. -/
def Handled (hs : Nat → Option Handler) (n : Nat) : Prop := ∀ w < n, ∃ h, hs w = some h

theorem Handled.receive (h : Handled hs n) (x : Handler) :
    Handled (Function.update hs n (some x)) (n + 1) := by
  intro w hw
  by_cases hwn : w = n
  · exact ⟨x, by rw [hwn, Function.update_self]⟩
  · rw [Function.update_of_ne hwn]
    exact h w (by omega)

theorem handled_step (h : Handled s.handlers s.received) (hstep : Step s e s') :
    Handled s'.handlers s'.received := by
  cases hstep with
  | receive => exact h.receive _
  | _ => exact fun v hv => update_known (h v hv) _ _

/-! ## No handler runs for ever -/

theorem LockInv.left_lt {o : Option Nat} (hl : LockInv hs n o) (hw : hs w = some ⟨form, pc₀⟩)
    (hlt : pc.left < pc₀.left) :
    work Handler.left (Function.update hs w (some ⟨form, pc⟩)) n < work Handler.left hs n :=
  work_lt (hl.known w _ hw) hw hlt

/-- Each step of a handler leaves it one step less at least. -/
theorem Step.left_lt (hl : LockInv s.handlers s.received s.owner) (he : e.byHandler) (hstep : Step s e s') :
    s'.left < s.left := by
  cases hstep with
  | receive          => exact he.elim
  | postLog hw       => exact hl.left_lt hw (by decide)
  | lock hw          => exact hl.left_lt hw (by decide)
  | testBusy hw      => exact hl.left_lt hw (by decide)
  | testClaim hw     => exact hl.left_lt hw (by decide)
  | unlockReturn hw  => exact hl.left_lt hw (by decide)
  | unlockGoOn hw    => exact hl.left_lt hw (by decide)
  | wait hw          => exact hl.left_lt hw (by decide)
  | postRelease hw   => exact hl.left_lt hw (by decide)
  | reset hw         => exact hl.left_lt hw (by decide)

/-- What the steps of the handlers keep: no write is received by them. -/
def Running (m : Nat) (s : State) : Prop := Inv s ∧ Handled s.handlers s.received ∧ s.received = m

theorem consumes (m : Nat) : system.Consumes Event.byHandler (Running m) State.left where
  keeps s e s' := by
    rintro ⟨hinv, hall, hm⟩ he hstep
    refine ⟨inv_step hinv hstep, handled_step hall (step_cases hstep), ?_⟩
    cases step_cases hstep with
    | receive => exact he.elim
    | _ => exact hm
  uses s e s' := by
    rintro ⟨hinv, -⟩ he hstep
    exact (step_cases hstep).left_lt hinv.lock he

/-! ## No handler is blocked for ever -/

/-- A handler that has not returned can take a step, unless another one holds the mutex. -/
theorem enabled_of_not_finished (hw : s.handlers w = some ⟨form, pc⟩) (hpc : pc ≠ .finished)
    (hfree : pc = .logged → s.owner = none) : ∃ e s', Event.byHandler e ∧ system.step s e = some s' := by
  cases pc with
  | entered  => exact ⟨.postLog w, _, trivial, by simp only [system, step, hw]; rfl⟩
  | logged   => exact ⟨.lock w, _, trivial, by simp only [system, step, hw, hfree rfl]; rfl⟩
  | locked   =>
      cases hflag : s.ackProcessIsRunning with
      | true => exact ⟨.testAndSet w, _, trivial, by simp only [system, step, hw, hflag]; rfl⟩
      | false => exact ⟨.testAndSet w, _, trivial, by simp only [system, step, hw, hflag]; rfl⟩
  | busy     => exact ⟨.unlock w, _, trivial, by simp only [system, step, hw]; rfl⟩
  | claimed  => exact ⟨.unlock w, _, trivial, by simp only [system, step, hw]; rfl⟩
  | waiting  => exact ⟨.wait w, _, trivial, by simp only [system, step, hw]; rfl⟩
  | waited   => exact ⟨.postRelease w, _, trivial, by simp only [system, step, hw]; rfl⟩
  | posted   => exact ⟨.reset w, _, trivial, by simp only [system, step, hw]; rfl⟩
  | finished => exact absurd rfl hpc

/-- **No deadlock**: where no handler can take a step, all have returned. -/
theorem quiet_of_stuck (hinv : Inv s) (hall : Handled s.handlers s.received)
    (hstuck : system.Stuck Event.byHandler s) : s.Quiet := by
  have hmoves : ∀ e s', Event.byHandler e → system.step s e ≠ some s' := by
    intro e s' he hstep
    rw [hstuck e he] at hstep
    cases hstep
  -- the holder of the mutex could take a step, so nobody holds it
  have hfree : s.owner = none := by
    cases hown : s.owner with
    | none => rfl
    | some v =>
        obtain ⟨⟨form, pc⟩, hv, hholds⟩ := (hinv.lock.owner v).mp hown
        obtain ⟨e, s', he, hstep⟩ := enabled_of_not_finished hv
          (by rintro rfl; cases hholds) (by rintro rfl; cases hholds)
        exact absurd hstep (hmoves e s' he)
  intro w hw
  obtain ⟨⟨form, pc⟩, hx⟩ := hall w hw
  refine ⟨_, hx, ?_⟩
  by_cases hpc : pc = .finished
  · rw [hpc]
    rfl
  · obtain ⟨e, s', he, hstep⟩ := enabled_of_not_finished hx hpc (fun _ => hfree)
    exact absurd hstep (hmoves e s' he)

/-- When all have returned, nobody is left who could have set the flag or taken the mutex. -/
theorem atRest_of_quiet (hinv : Inv s) (hquiet : s.Quiet) : AtRest s := by
  have hnone : ∀ (p : Pc → Bool), p .finished = false → ∀ w, ¬ Has s.handlers p w := by
    rintro p hp w ⟨⟨form, pc⟩, hw, hpc⟩
    obtain ⟨y, hy, hf⟩ := hquiet w (hinv.lock.known w _ hw)
    obtain rfl := Option.some.inj (hw.symm.trans hy)
    cases pc with
    | finished =>
        rw [hp] at hpc
        cases hpc
    | _ => cases hf
  refine ⟨hquiet, ?_, ?_⟩
  · cases hflag : s.ackProcessIsRunning with
    | false => rfl
    | true =>
        obtain ⟨w, hw⟩ := hinv.ack.flag.mp hflag
        exact absurd hw (hnone Pc.inAckProcess rfl w)
  · cases hown : s.owner with
    | none => rfl
    | some w => exact absurd ((hinv.lock.owner w).mp hown) (hnone Pc.holdsMutex rfl w)

theorem running_of_path {C : State → Event → Prop} (h : system.Path C tr s) :
    Running s.received s := by
  have hboth : Inv s ∧ Handled s.handlers s.received := by
    refine System.Path.invariant_state (P := fun s => Inv s ∧ Handled s.handlers s.received)
      ⟨inv_initial, fun _ hw => absurd hw (Nat.not_lt_zero _)⟩ ?_ h
    rintro s e s' ⟨hinv, hall⟩ - hstep
    exact ⟨inv_step hinv hstep, handled_step hall (step_cases hstep)⟩
  exact ⟨hboth.1, hboth.2, rfl⟩

theorem left_le (s : State) : s.left ≤ 7 * s.received := work_le (fun _ _ x _ => x.pc.left_le)

/-- **The write service comes to rest**, from every reachable state: without new writes every schedule of its
    handlers ends after at most seven steps a write received, it ends with all handlers finished, the flag
    reset and the mutex free, and there is such a schedule. -/
theorem comes_to_rest {tr : List Event} {s : State} (h : system.Path System.Any tr s) :
    (∀ es s', (∀ e ∈ es, e.byHandler) → system.run s es = some s' →
      es.length ≤ 7 * s.received ∧ (system.Stuck Event.byHandler s' → AtRest s')) ∧
    ∃ es s', (∀ e ∈ es, e.byHandler) ∧ system.run s es = some s' ∧ AtRest s' := by
  have hrunning := running_of_path h
  have hrest : ∀ s', Running s.received s' → system.Stuck Event.byHandler s' → AtRest s' :=
    fun s' hs' hstuck => atRest_of_quiet hs'.1 (quiet_of_stuck hs'.1 hs'.2.1 hstuck)
  refine ⟨fun es s' hes hrun => ?_, ?_⟩
  · obtain ⟨hs', hle⟩ := (consumes s.received).run hrunning hes hrun
    have hbound := left_le s
    exact ⟨by omega, hrest s' hs'⟩
  · obtain ⟨es, s', hes, hrun, hstuck⟩ := (consumes s.received).exists_stuck hrunning
    exact ⟨es, s', hes, hrun, hrest s' ((consumes s.received).run hrunning hes hrun).1 hstuck⟩

/-- Two handlers that contend for the mutex. -/
def contending : List Event := [.receive [], .receive [], .postLog 0, .postLog 1, .lock 1, .testAndSet 1]

theorem comes_to_rest_contending : ∃ s, system.Path System.Any contending s ∧
    ∃ es s', (∀ e ∈ es, e.byHandler) ∧ system.run s es = some s' ∧ AtRest s' := by
  obtain ⟨s, hs, -⟩ := System.exists_path_of_run system contending (fun s => s.ackProcessIsRunning) (by decide)
  exact ⟨s, hs, (comes_to_rest hs).2⟩

end Astraea
end AstraeaGateway
