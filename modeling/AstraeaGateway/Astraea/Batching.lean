import AstraeaGateway.Astraea.Mutex

/-!
# `Astraea.Batching` — does one release cover a batch of writes?

A handler that finds the ack process running returns at once and relies on the running handler's release.
The flag stays set from before the wait until *after* the release is posted, so a handler that logs and
tests in the window between the release and the reset is left behind: nothing is posted for it any more
(`lostWakeUp`). Outside that window the reliance is sound: `CoversTest` rules the window out, step by step,
and `quiet_covered` is batching for every run that stays out of it.
-/

namespace AstraeaGateway
namespace Astraea

open Transition

/-- Some release was posted after `w`'s log message was posted. -/
def Covered (ps : List Posted) (w : Nat) : Prop :=
  ∃ form, ∃ r, r.post.url = releaseUrl ∧ Precedes (logPost w form) r ps

/-- **The window is avoided.** A handler that finds the flag set does so while the handler that set it has
    yet to post its release, or a release was already posted after its own log message. -/
def CoversTest (s : State) : Event → Prop
  | .testAndSet w => s.ackProcessIsRunning = true →
      (∃ v, Has s.handlers Pc.owesRelease v) ∨ Covered s.posts w
  | _ => True

variable {hs : Nat → Option Handler} {ps : List Posted} {v w : Nat} {form : Str} {pc pc₀ : Pc}
variable {s s' : State} {e : Event}

theorem Covered.append (h : Covered ps w) (p : Posted) : Covered (ps ++ [p]) w := by
  obtain ⟨form, r, hr, hprec⟩ := h
  exact ⟨form, r, hr, hprec.concat p⟩

/-- Posting a release covers every handler that has logged. -/
theorem covered_of_release (hlog : logPost w form ∈ ps) (f : Str) :
    Covered (ps ++ [releasePost v f]) w :=
  ⟨form, releasePost v f, rfl, precedes_concat.mpr (Or.inr ⟨rfl, hlog⟩)⟩

/-- Every handler that posts nothing any more is covered, or some release is still owed. -/
def BatchInv (hs : Nat → Option Handler) (ps : List Posted) : Prop :=
  ∀ w, Has hs Pc.settled w → Covered ps w ∨ ∃ v, Has hs Pc.owesRelease v

/-- A move that settles nobody and keeps what is owed. -/
theorem BatchInv.move (h : BatchInv hs ps) (hw : hs w = some ⟨form, pc₀⟩)
    (hset : pc.settled = pc₀.settled) (howe : pc.owesRelease = pc₀.owesRelease) :
    BatchInv (Function.update hs w (some ⟨form, pc⟩)) ps := by
  intro u hu
  rcases h u ((has_update_of_eq hw hset).mp hu) with hc | ⟨v, hv⟩
  · exact Or.inl hc
  · exact Or.inr ⟨v, (has_update_of_eq hw howe).mpr hv⟩

theorem BatchInv.receive {n : Nat} {o : Option Nat} (hl : LockInv hs n o) (h : BatchInv hs ps) :
    BatchInv (Function.update hs n (some ⟨form, .entered⟩)) ps := by
  intro u hu
  rcases h u ((hl.has_receive rfl).mp hu) with hcov | ⟨v, hv⟩
  · exact Or.inl hcov
  · exact Or.inr ⟨v, (hl.has_receive rfl).mpr hv⟩

/-- A further post takes no cover away. -/
theorem BatchInv.append (h : BatchInv hs ps) (p : Posted) : BatchInv hs (ps ++ [p]) := by
  intro u hu
  rcases h u hu with hcov | howed
  · exact Or.inl (hcov.append p)
  · exact Or.inr howed

/-- The one step where a handler starts to rely on another one's release. -/
theorem BatchInv.busy (h : BatchInv hs ps) (hw : hs w = some ⟨form, .locked⟩)
    (hc : (∃ v, Has hs Pc.owesRelease v) ∨ Covered ps w) :
    BatchInv (Function.update hs w (some ⟨form, .busy⟩)) ps := by
  have howed : (∃ v, Has hs Pc.owesRelease v) →
      ∃ v, Has (Function.update hs w (some ⟨form, .busy⟩)) Pc.owesRelease v := by
    rintro ⟨v, hv⟩
    exact ⟨v, (has_update_of_eq hw (by rfl)).mpr hv⟩
  intro u hu
  rcases (has_update_true rfl).mp hu with rfl | hu
  · -- the handler that relies on a release: the condition on the step
    exact hc.symm.imp id howed
  · exact (h u hu).imp id howed

/-- The handler that takes the flag owes the release from then on. -/
theorem batchInv_claim (hs : Nat → Option Handler) (ps : List Posted) (w : Nat) (form : Str) :
    BatchInv (Function.update hs w (some ⟨form, .claimed⟩)) ps :=
  fun _ _ => Or.inr ⟨w, has_update_self.mpr rfl⟩

/-- The release covers its own handler and everyone who settled before it. -/
theorem batchInv_postRelease (hp : PostInv hs ps) (hw : hs w = some ⟨form, .waited⟩) :
    BatchInv (Function.update hs w (some ⟨form, .posted⟩)) (ps ++ [releasePost w form]) := by
  intro u hu
  rcases (has_update_true rfl).mp hu with rfl | hu
  · exact Or.inl (covered_of_release (hp.logged u form _ hw rfl) form)
  · obtain ⟨⟨f, pc⟩, hx, hset⟩ := hu
    -- whoever has settled has logged, before this release
    have hlog : pc.hasLogged = true := by
      cases pc <;> simp [Pc.settled, Pc.hasLogged] at hset ⊢
    exact Or.inl (covered_of_release (hp.logged u f pc hx hlog) form)

theorem batchInv_step (hinv : Inv s) (h : BatchInv s.handlers s.posts) (hc : CoversTest s e)
    (hstep : Step s e s') : BatchInv s'.handlers s'.posts := by
  cases hstep with
  | receive form      => exact h.receive hinv.lock
  | postLog hw        => exact (h.append _).move hw rfl rfl
  | lock hw _         => exact h.move hw rfl rfl
  | testBusy hw hf    => exact h.busy hw (hc hf)
  | testClaim hw _    => exact batchInv_claim _ _ _ _
  | unlockReturn hw   => exact h.move hw rfl rfl
  | unlockGoOn hw     => exact h.move hw rfl rfl
  | wait hw           => exact h.move hw rfl rfl
  | postRelease hw    => exact batchInv_postRelease hinv.post hw
  | reset hw          => exact h.move hw rfl rfl

theorem batchInv_of_path {tr : List Event} (h : system.Path CoversTest tr s) :
    BatchInv s.handlers s.posts := by
  have hboth : Inv s ∧ BatchInv s.handlers s.posts := by
    refine System.Path.invariant_state (P := fun s => Inv s ∧ BatchInv s.handlers s.posts)
      ⟨inv_initial, ?_⟩ ?_ h
    · rintro w ⟨x, hx, _⟩
      cases hx
    · rintro s e s' ⟨hinv, hb⟩ hc hstep
      exact ⟨inv_step hinv hstep, batchInv_step hinv hb hc (step_cases hstep)⟩
  exact hboth.2

/-- When no write handler is active, nothing is owed. -/
theorem Quiet.not_owed (hl : LockInv s.handlers s.received s.owner) (hq : s.Quiet) :
    ¬ Has s.handlers Pc.owesRelease v := by
  rintro ⟨x, hx, howe⟩
  obtain ⟨y, hy, hfin⟩ := hq v (hl.known v x hx)
  obtain rfl := Option.some.inj (hx.symm.trans hy)
  obtain ⟨form, pc⟩ := x
  cases pc <;> simp [Pc.owesRelease, Pc.isFinished] at howe hfin

/-- **Batching covers every write** in every run that stays out of the window: once no write handler is
    active, a release was posted after the log message of each write that was handled. -/
theorem quiet_covered {tr : List Event} {s : State} (h : system.Path CoversTest tr s) (hq : s.Quiet)
    (w : Nat) (hw : w < s.received) : Covered s.posts w := by
  have hset : Has s.handlers Pc.settled w := by
    obtain ⟨⟨form, pc⟩, hx, hfin⟩ := hq w hw
    refine ⟨⟨form, pc⟩, hx, ?_⟩
    cases pc <;> simp [Pc.isFinished, Pc.settled] at hfin ⊢
  rcases batchInv_of_path h w hset with hcov | ⟨v, hv⟩
  · exact hcov
  · exact absurd hv (Quiet.not_owed (inv_of_path h).lock hq)

/-- A test for `CoversTest`: the flag is free, or some handler owes its release. -/
def coversTest (s : State) : Event → Bool
  | .testAndSet _ => !s.ackProcessIsRunning ||
      (List.range s.received).any (fun v => decide (Has s.handlers Pc.owesRelease v))
  | _ => true

theorem coversTest_sound (s : State) (e : Event) (h : coversTest s e = true) : CoversTest s e := by
  cases e with
  | testAndSet w =>
      intro hf
      simp only [coversTest, hf, Bool.not_true, Bool.false_or, List.any_eq_true] at h
      obtain ⟨v, _, hv⟩ := h
      exact Or.inl ⟨v, of_decide_eq_true hv⟩
  | _ => trivial

/-- Two writes; the second finds the flag set while the release of the first is still to be posted. -/
def batchOfTwo : List Event :=
  [.receive [], .receive [], .postLog 0, .postLog 1, .lock 0, .testAndSet 0, .unlock 0, .lock 1,
   .testAndSet 1, .unlock 1, .wait 0, .postRelease 0, .reset 0]

theorem quiet_covered_batchOfTwo : ∃ s, system.Path CoversTest batchOfTwo s ∧ s.Quiet ∧
    1 < s.received ∧ Covered s.posts 1 := by
  obtain ⟨s, hs, hp⟩ := System.exists_path_of_runWhere system batchOfTwo coversTest
    (fun s => decide (s.Quiet ∧ 1 < s.received)) coversTest_sound (by decide)
  obtain ⟨hq, hr⟩ := of_decide_eq_true hp
  exact ⟨s, hs, hq, hr, quiet_covered hs hq 1 hr⟩

/-! ## The lost wake-up -/

/-- The second write is logged and tested between the release of the first and the reset of the flag. -/
def lostWakeUp : List Event :=
  [.receive [], .receive [], .postLog 0, .lock 0, .testAndSet 0, .unlock 0, .wait 0, .postRelease 0,
   .postLog 1, .lock 1, .testAndSet 1, .unlock 1, .reset 0]

/-- **A write is left without a release.** Both handlers have returned, and no release was posted after
    the log message of the second. -/
theorem lostWakeUp_uncovered : ∃ s, system.Path System.Any lostWakeUp s ∧ s.Quiet ∧ 1 < s.received ∧
    ¬ Covered s.posts 1 := by
  obtain ⟨s, hs, hp⟩ := System.exists_path_of_run system lostWakeUp
    (fun s => decide ((s.Quiet ∧ 1 < s.received) ∧
      s.posts = [logPost 0 [], releasePost 0 [], logPost 1 []])) (by decide)
  obtain ⟨⟨hq, hr⟩, hposts⟩ := of_decide_eq_true hp
  refine ⟨s, hs, hq, hr, ?_⟩
  rw [hposts]
  rintro ⟨form, r, _, hprec⟩
  -- the log message of the second write is the last thing posted
  simp [precedes_cons, not_precedes_nil, logPost, releasePost] at hprec

end Astraea
end AstraeaGateway
