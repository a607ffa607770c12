import AstraeaGateway.Astraea.Write
import Mathlib.Data.List.Nodup
import Mathlib.Data.List.Perm.Subperm

/-!
# `Astraea.Mutex` — one ack process at a time

`ack_process_is_running` is set under the mutex `m` but reset without it, so mutual exclusion of the ack
process does not follow from the lock. It follows from two invariants: `LockInv` ties the mutex to the
program counters, `AckInv` ties the flag to them (and is what the unlocked reset needs). `PostInv` then
reads off who posted what: a handler posts its release once, after its own log message.

Each invariant is stated over the components of the state it is about, so that a step that touches only
the others keeps it as it stands.
-/

namespace AstraeaGateway
namespace Astraea

open Transition

/-! ## The mutex and the flag -/

/-- Handlers are numbered in the order of their requests, and `owner` is whoever stands between
    `m.lock()` and `m.unlock()`. -/
structure LockInv (hs : Nat → Option Handler) (received : Nat) (owner : Option Nat) : Prop where
  known : ∀ w h, hs w = some h → w < received
  owner : ∀ w, owner = some w ↔ Has hs Pc.holdsMutex w

/-- The flag is set exactly while some handler is in the ack process, and no two are. -/
structure AckInv (hs : Nat → Option Handler) (flag : Bool) : Prop where
  flag   : flag = true ↔ ∃ w, Has hs Pc.inAckProcess w
  unique : ∀ v w, Has hs Pc.inAckProcess v → Has hs Pc.inAckProcess w → v = w

variable {hs : Nat → Option Handler} {n w : Nat} {o : Option Nat} {b : Bool} {ps : List Posted}
variable {form : Str} {pc pc₀ : Pc} {s s' : State} {e : Event}

theorem LockInv.not_has_received (h : LockInv hs n o) {p : Pc → Bool} : ¬ Has hs p n := by
  rintro ⟨x, hx, _⟩
  exact Nat.lt_irrefl _ (h.known _ x hx)

/-- A new handler stands at `entered`; what is false there holds of the same handlers as before. -/
theorem LockInv.has_receive (h : LockInv hs n o) {p : Pc → Bool} {v : Nat} (hp : p .entered = false) :
    Has (Function.update hs n (some ⟨form, .entered⟩)) p v ↔ Has hs p v := by
  rw [has_update_false hp]
  constructor
  · exact And.right
  · intro hv
    refine ⟨?_, hv⟩
    rintro rfl
    exact h.not_has_received hv

/-- A handler that moves keeps its number. -/
theorem LockInv.known_update (h : LockInv hs n o) (hw : hs w = some ⟨form, pc₀⟩) (v : Nat) (x : Handler)
    (hv : Function.update hs w (some ⟨form, pc⟩) v = some x) : v < n := by
  rcases update_eq_some hv with ⟨rfl, _⟩ | ⟨_, hv⟩
  · exact h.known v _ hw
  · exact h.known v x hv

theorem LockInv.receive (h : LockInv hs n o) :
    LockInv (Function.update hs n (some ⟨form, .entered⟩)) (n + 1) o where
  known v x hv := by
    rcases update_eq_some hv with ⟨rfl, _⟩ | ⟨_, hv⟩
    · exact Nat.lt_succ_self _
    · exact Nat.lt_succ_of_lt (h.known v x hv)
  owner v := (h.owner v).trans (h.has_receive rfl).symm

/-- A move that neither takes nor gives back the mutex. -/
theorem LockInv.move (h : LockInv hs n o) (hw : hs w = some ⟨form, pc₀⟩)
    (hpc : pc.holdsMutex = pc₀.holdsMutex) : LockInv (Function.update hs w (some ⟨form, pc⟩)) n o where
  known := h.known_update hw
  owner v := (h.owner v).trans (has_update_of_eq hw hpc).symm

theorem LockInv.lock (h : LockInv hs n none) (hw : hs w = some ⟨form, pc₀⟩)
    (hpc : pc.holdsMutex = true) : LockInv (Function.update hs w (some ⟨form, pc⟩)) n (some w) where
  known := h.known_update hw
  owner v := by
    have hnone : ¬ Has hs Pc.holdsMutex v := by
      rw [← h.owner v]; simp
    rw [has_update_true hpc]
    constructor
    · intro hv; exact Or.inl (Option.some.inj hv).symm
    · rintro (rfl | hv)
      · rfl
      · exact absurd hv hnone

/-- Giving the mutex back: only its owner does. -/
theorem LockInv.unlock (h : LockInv hs n o) (hw : hs w = some ⟨form, pc₀⟩)
    (h₀ : pc₀.holdsMutex = true) (hpc : pc.holdsMutex = false) :
    LockInv (Function.update hs w (some ⟨form, pc⟩)) n none where
  known := h.known_update hw
  owner v := by
    have hown : o = some w := (h.owner w).mpr ((has_of_eq hw).mpr h₀)
    rw [has_update_false hpc, ← h.owner v, hown]
    constructor
    · intro hc; cases hc
    · rintro ⟨hne, he⟩; exact absurd (Option.some.inj he).symm hne

theorem lockInv_step (h : LockInv s.handlers s.received s.owner) (hstep : Step s e s') :
    LockInv s'.handlers s'.received s'.owner := by
  cases hstep with
  | receive form      => exact h.receive
  | postLog hw        => exact h.move hw rfl
  | lock hw ho        => rw [ho] at h; exact h.lock hw rfl
  | testBusy hw _     => exact h.move hw rfl
  | testClaim hw _    => exact h.move hw rfl
  | unlockReturn hw   => exact h.unlock hw rfl rfl
  | unlockGoOn hw     => exact h.unlock hw rfl rfl
  | wait hw           => exact h.move hw rfl
  | postRelease hw    => exact h.move hw rfl
  | reset hw          => exact h.move hw rfl

/-- A move within the ack process, or outside it. -/
theorem AckInv.move (h : AckInv hs b) (hw : hs w = some ⟨form, pc₀⟩)
    (hpc : pc.inAckProcess = pc₀.inAckProcess) : AckInv (Function.update hs w (some ⟨form, pc⟩)) b where
  flag := h.flag.trans (exists_congr fun _ => (has_update_of_eq hw hpc).symm)
  unique v u hv hu :=
    h.unique v u ((has_update_of_eq hw hpc).mp hv) ((has_update_of_eq hw hpc).mp hu)

/-- Entering: the flag was clear, so nobody was in the ack process. -/
theorem AckInv.claim (h : AckInv hs false) (hpc : pc.inAckProcess = true) :
    AckInv (Function.update hs w (some ⟨form, pc⟩)) true := by
  -- a clear flag means that nobody is in the ack process
  have hnone : ∀ v, ¬ Has hs Pc.inAckProcess v := by
    intro v hv
    exact absurd (h.flag.mpr ⟨v, hv⟩) (by decide)
  have honly : ∀ v, Has (Function.update hs w (some ⟨form, pc⟩)) Pc.inAckProcess v → v = w := by
    intro v hv
    exact ((has_update_true hpc).mp hv).resolve_right (hnone v)
  refine ⟨⟨fun _ => ⟨w, has_update_self.mpr hpc⟩, fun _ => rfl⟩, ?_⟩
  intro v u hv hu
  rw [honly v hv, honly u hu]

/-- Leaving: the handler that resets the flag is the only one in the ack process. -/
theorem AckInv.reset (h : AckInv hs b) (hw : hs w = some ⟨form, pc₀⟩)
    (h₀ : pc₀.inAckProcess = true) (hpc : pc.inAckProcess = false) :
    AckInv (Function.update hs w (some ⟨form, pc⟩)) false := by
  -- `unique` makes up for the mutex that the reset does not take
  have hnone : ∀ v, ¬ Has (Function.update hs w (some ⟨form, pc⟩)) Pc.inAckProcess v := by
    intro v hv
    obtain ⟨hne, hv'⟩ := (has_update_false hpc).mp hv
    exact hne (h.unique v w hv' ((has_of_eq hw).mpr h₀))
  refine ⟨⟨fun hc => absurd hc (by decide), fun ⟨v, hv⟩ => absurd hv (hnone v)⟩, ?_⟩
  intro v u hv _
  exact absurd hv (hnone v)

theorem ackInv_step (hl : LockInv s.handlers s.received s.owner)
    (h : AckInv s.handlers s.ackProcessIsRunning) (hstep : Step s e s') :
    AckInv s'.handlers s'.ackProcessIsRunning := by
  cases hstep with
  | receive form =>
      exact ⟨h.flag.trans (exists_congr fun _ => (hl.has_receive rfl).symm),
        fun v u hv hu => h.unique v u ((hl.has_receive rfl).mp hv) ((hl.has_receive rfl).mp hu)⟩
  | postLog hw        => exact h.move hw rfl
  | lock hw _         => exact h.move hw rfl
  | testBusy hw _     => exact h.move hw rfl
  | testClaim _ hf    => rw [hf] at h; exact h.claim rfl
  | unlockReturn hw   => exact h.move hw rfl
  | unlockGoOn hw     => exact h.move hw rfl
  | wait hw           => exact h.move hw rfl
  | postRelease hw    => exact h.move hw rfl
  | reset hw          => exact h.reset hw rfl rfl

/-! ## Who posted what -/

theorem releasesOf_log : releasesOf (ps ++ [logPost w form]) = releasesOf ps := by
  have hne : decide ((logPost w form).post.url = releaseUrl) = false := by
    show decide (logUrl = releaseUrl) = false
    decide
  unfold releasesOf
  rw [List.filter_append, List.filter_singleton, hne]
  exact List.append_nil _

theorem releasesOf_release :
    releasesOf (ps ++ [releasePost w form]) = releasesOf ps ++ [releasePost w form] := by
  have heq : decide ((releasePost w form).post.url = releaseUrl) = true := decide_eq_true rfl
  unfold releasesOf
  rw [List.filter_append, List.filter_singleton, heq]
  rfl

/-- A handler that has logged has its log message in `posts`; the releases come from different handlers,
    each past its release, and each after that handler's log message. -/
structure PostInv (hs : Nat → Option Handler) (ps : List Posted) : Prop where
  logged   : ∀ w form pc, hs w = some ⟨form, pc⟩ → pc.hasLogged = true → logPost w form ∈ ps
  releaser : ∀ p ∈ releasesOf ps, Has hs Pc.pastRelease p.handler
  once     : ((releasesOf ps).map Posted.handler).Nodup
  order    : ∀ p ∈ releasesOf ps, ∃ form, Precedes (logPost p.handler form) p ps

/-- `logged` after a move of `w`, with `w`'s own log message at hand. -/
theorem PostInv.logged_update (h : PostInv hs ps) (hlog : logPost w form ∈ ps) (v : Nat) (f : Str)
    (c : Pc) (hv : Function.update hs w (some ⟨form, pc⟩) v = some ⟨f, c⟩) (hc : c.hasLogged = true) :
    logPost v f ∈ ps := by
  rcases update_eq_some hv with ⟨rfl, heq⟩ | ⟨_, hv⟩
  · obtain ⟨rfl, _⟩ := Handler.mk.inj heq
    exact hlog
  · exact h.logged v f c hv hc

/-- `releaser` after a move of `w` that does not go back behind the release. -/
theorem PostInv.releaser_update (h : PostInv hs ps) (hw : hs w = some ⟨form, pc₀⟩)
    (hpast : pc₀.pastRelease = true → pc.pastRelease = true) (p : Posted) (hp : p ∈ releasesOf ps) :
    Has (Function.update hs w (some ⟨form, pc⟩)) Pc.pastRelease p.handler := by
  have hhas := h.releaser p hp
  by_cases hpw : p.handler = w
  · rw [hpw] at hhas ⊢
    exact has_update_self.mpr (hpast ((has_of_eq hw).mp hhas))
  · exact (has_update_ne hpw _).mpr hhas

/-- A move that posts nothing. -/
theorem PostInv.move (h : PostInv hs ps) (hw : hs w = some ⟨form, pc₀⟩) (hlog : pc₀.hasLogged = true)
    (hpast : pc₀.pastRelease = true → pc.pastRelease = true) :
    PostInv (Function.update hs w (some ⟨form, pc⟩)) ps where
  logged := h.logged_update (h.logged w form pc₀ hw hlog)
  releaser := h.releaser_update hw hpast
  once := h.once
  order := h.order

theorem PostInv.receive (hl : LockInv hs n o) (h : PostInv hs ps) :
    PostInv (Function.update hs n (some ⟨form, .entered⟩)) ps where
  logged v f c hv hc := by
    rcases update_eq_some hv with ⟨_, heq⟩ | ⟨_, hv⟩
    · -- the new handler has not logged yet
      obtain ⟨_, rfl⟩ := Handler.mk.inj heq
      cases hc
    · exact h.logged v f c hv hc
  releaser p hp := (hl.has_receive rfl).mpr (h.releaser p hp)
  once := h.once
  order := h.order

theorem PostInv.postLog (h : PostInv hs ps) (hw : hs w = some ⟨form, .entered⟩) :
    PostInv (Function.update hs w (some ⟨form, .logged⟩)) (ps ++ [logPost w form]) where
  logged v f c hv hc := by
    rcases update_eq_some hv with ⟨rfl, heq⟩ | ⟨_, hv⟩
    · obtain ⟨rfl, _⟩ := Handler.mk.inj heq
      exact List.mem_append_right _ List.mem_cons_self
    · exact List.mem_append_left _ (h.logged v f c hv hc)
  releaser p hp := by
    rw [releasesOf_log] at hp
    exact h.releaser_update hw (fun hc => by cases hc) p hp
  once := by
    rw [releasesOf_log]
    exact h.once
  order p hp := by
    rw [releasesOf_log] at hp
    obtain ⟨f, hf⟩ := h.order p hp
    exact ⟨f, hf.concat _⟩

/-- A handler at `waited` has not released yet, so its release is the only one of its own. -/
theorem PostInv.postRelease (h : PostInv hs ps) (hw : hs w = some ⟨form, .waited⟩) :
    PostInv (Function.update hs w (some ⟨form, .posted⟩)) (ps ++ [releasePost w form]) where
  logged v f c hv hc :=
    List.mem_append_left _ (h.logged_update (h.logged w form _ hw rfl) v f c hv hc)
  releaser p hp := by
    rw [releasesOf_release, List.mem_append, List.mem_singleton] at hp
    rcases hp with hp | rfl
    · exact h.releaser_update hw (fun _ => rfl) p hp
    · exact has_update_self.mpr rfl
  once := by
    -- `releaser` would have put an earlier releaser past its release
    have hnew : w ∉ (releasesOf ps).map Posted.handler := by
      intro hmem
      obtain ⟨p, hp, hpw⟩ := List.mem_map.mp hmem
      have hpast := h.releaser p hp
      rw [hpw, has_of_eq hw] at hpast
      cases hpast
    rw [releasesOf_release, List.map_append]
    exact List.Nodup.append h.once (List.nodup_singleton _)
      (List.disjoint_singleton.mpr hnew)
  order p hp := by
    rw [releasesOf_release, List.mem_append, List.mem_singleton] at hp
    rcases hp with hp | rfl
    · obtain ⟨f, hf⟩ := h.order p hp
      exact ⟨f, hf.concat _⟩
    · -- its own log message is among the posts, and the release comes last
      exact ⟨form, precedes_concat.mpr (Or.inr ⟨rfl, h.logged w form _ hw rfl⟩)⟩

theorem postInv_step (hl : LockInv s.handlers s.received s.owner) (h : PostInv s.handlers s.posts)
    (hstep : Step s e s') : PostInv s'.handlers s'.posts := by
  cases hstep with
  | receive form      => exact h.receive hl
  | postLog hw        => exact h.postLog hw
  | lock hw _         => exact h.move hw rfl (fun hc => by cases hc)
  | testBusy hw _     => exact h.move hw rfl (fun hc => by cases hc)
  | testClaim hw _    => exact h.move hw rfl (fun hc => by cases hc)
  | unlockReturn hw   => exact h.move hw rfl (fun _ => rfl)
  | unlockGoOn hw     => exact h.move hw rfl (fun hc => by cases hc)
  | wait hw           => exact h.move hw rfl (fun hc => by cases hc)
  | postRelease hw    => exact h.postRelease hw
  | reset hw          => exact h.move hw rfl (fun _ => rfl)

/-! ## Every reachable state -/

/-- The three invariants together. -/
structure Inv (s : State) : Prop where
  lock : LockInv s.handlers s.received s.owner
  ack  : AckInv s.handlers s.ackProcessIsRunning
  post : PostInv s.handlers s.posts

theorem inv_initial : Inv initial where
  lock := ⟨fun _ _ hw => by simp [initial] at hw, fun w => by simp [initial, Has]⟩
  ack := ⟨by simp [initial, Has], fun v w hv _ => by simp [initial, Has] at hv⟩
  post := ⟨fun _ _ _ hw _ => by simp [initial] at hw, fun p hp => by simp [initial, releasesOf] at hp,
    List.nodup_nil, fun p hp => by simp [initial, releasesOf] at hp⟩

theorem inv_step (h : Inv s) (hstep : step s e = some s') : Inv s' where
  lock := lockInv_step h.lock (step_cases hstep)
  ack := ackInv_step h.lock h.ack (step_cases hstep)
  post := postInv_step h.lock h.post (step_cases hstep)

theorem inv_of_path {C : State → Event → Prop} {tr : List Event} (h : system.Path C tr s) : Inv s :=
  System.Path.invariant_state (P := Inv) inv_initial (fun _ _ _ hs _ hstep => inv_step hs hstep) h

theorem LockInv.not_finished (h : LockInv hs n o) (hw : Has hs Pc.isFinished w) : o ≠ some w := by
  intro hown
  obtain ⟨x, hx, hm⟩ := (h.owner w).mp hown
  obtain ⟨y, hy, hf⟩ := hw
  obtain rfl := Option.some.inj (hx.symm.trans hy)
  obtain ⟨form, pc⟩ := x
  cases pc <;> simp [Pc.holdsMutex, Pc.isFinished] at hm hf

/-- Different handlers, each of a received write: no more releases than writes. -/
theorem releases_length_le (hl : LockInv hs n o) (h : PostInv hs ps) : (releasesOf ps).length ≤ n := by
  have hsub : (releasesOf ps).map Posted.handler ⊆ List.range n := by
    intro v hv
    obtain ⟨p, hp, rfl⟩ := List.mem_map.mp hv
    obtain ⟨x, hx, _⟩ := h.releaser p hp
    exact List.mem_range.mpr (hl.known _ x hx)
  have hle := (h.once.subperm hsub).length_le
  rwa [List.length_map, List.length_range] at hle

/-- What the flag and the mutex guarantee in a state. -/
structure OneAckProcess (s : State) : Prop where
  /-- At most one handler is between setting and resetting the flag. -/
  exclusive : ∀ v w, Has s.handlers Pc.inAckProcess v → Has s.handlers Pc.inAckProcess w → v = w
  /-- The flag is set exactly when one is. -/
  flag : s.ackProcessIsRunning = true ↔ ∃ w, Has s.handlers Pc.inAckProcess w
  /-- No finished handler holds the mutex. -/
  freed : ∀ w, Has s.handlers Pc.isFinished w → s.owner ≠ some w
  /-- At most as many releases as writes received. -/
  bounded : (releasesOf s.posts).length ≤ s.received
  /-- Each release was posted by a different handler. -/
  once : ((releasesOf s.posts).map Posted.handler).Nodup
  /-- Each was posted after that handler's own log message. -/
  ordered : ∀ p ∈ releasesOf s.posts, ∃ form, Precedes (logPost p.handler form) p s.posts

/-- **One ack process at a time**, in every reachable state and for any number of handlers. -/
theorem one_ack_process {tr : List Event} {s : State} (h : system.Path System.Any tr s) :
    OneAckProcess s := by
  have hinv := inv_of_path h
  exact ⟨hinv.ack.unique, hinv.ack.flag, fun w hw => hinv.lock.not_finished hw,
    releases_length_le hinv.lock hinv.post, hinv.post.once, hinv.post.order⟩

/-- One handler runs to its end, and a second one takes the flag after it. -/
def twoInTurn : List Event :=
  [.receive [], .postLog 0, .lock 0, .testAndSet 0, .unlock 0, .wait 0, .postRelease 0, .reset 0,
   .receive [], .postLog 1, .lock 1, .testAndSet 1]

theorem one_ack_process_twoInTurn : ∃ s, system.Path System.Any twoInTurn s ∧ OneAckProcess s := by
  obtain ⟨s, hs, _⟩ :=
    System.exists_path_of_run system twoInTurn (fun s => s.ackProcessIsRunning) (by decide)
  exact ⟨s, hs, one_ack_process hs⟩

end Astraea
end AstraeaGateway
