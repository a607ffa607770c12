import AstraeaGateway.Data
import AstraeaGateway.Transition
import Mathlib.Logic.Function.Basic

/-!
# `Astraea.Write` — the `write` handler of `astraea.cpp`, any number of times in parallel

A handler is identified by the position of its request among the writes received. It stands at a program
counter `Pc`; an `Event` is one atomic step of one handler. `test-and-set` and `unlock` are two steps, so
a schedule may interleave other handlers between them.

The release and the log message go through `restCallPost`, which starts a detached thread: "posting" is
the hand-over, and `posts` keeps every hand-over in order.
-/

namespace AstraeaGateway
namespace Astraea

open Transition

/-- Where a `write` handler stands, named after the last thing it did. -/
inductive Pc
  | entered   -- the request was received
  | logged    -- the form was posted to the logger
  | locked    -- `m.lock()` returned
  | busy      -- found `ack_process_is_running` set; still holds `m`
  | claimed   -- set `ack_process_is_running`; still holds `m`
  | waiting   -- released `m`, about to wait for the M.C. value
  | waited    -- `waitSomeTime(80)` returned
  | posted    -- the release was posted
  | finished  -- returned
deriving DecidableEq, Repr

/-- A `write` handler: the `form` it was called with, and where it stands. -/
structure Handler where
  form : Str
  pc   : Pc

/-- A message handed to `restCallPost`, with the handler that did it. -/
structure Posted where
  handler : Nat
  post    : Post
deriving DecidableEq, Repr

/-- The globals of `astraea.cpp`, the handlers, and what they posted. `owner` holds the mutex `m`. -/
structure State where
  handlers            : Nat → Option Handler
  received            : Nat
  ackProcessIsRunning : Bool
  owner               : Option Nat
  posts               : List Posted

inductive Event
  | receive (form : Str)
  | postLog (w : Nat)
  | lock (w : Nat)
  | testAndSet (w : Nat)
  | unlock (w : Nat)
  | wait (w : Nat)
  | postRelease (w : Nat)
  | reset (w : Nat)
deriving DecidableEq, Repr

def initial : State := ⟨fun _ => none, 0, false, none, []⟩

def logUrl : Str := lit "logger:12345/log"
def releaseUrl : Str := lit "gateway:4000/release"

/-- `params = {{"message", param.form}}`, posted to the logger. -/
def logPost (w : Nat) (form : Str) : Posted := ⟨w, logUrl, [(lit "message", form)]⟩

/-- `params = {{"response", string(param.form)}}`, posted to the gateway. -/
def releasePost (w : Nat) (form : Str) : Posted := ⟨w, releaseUrl, [(lit "response", form)]⟩

/-- Handler `w` moves to `pc`. -/
def State.goto (s : State) (w : Nat) (form : Str) (pc : Pc) : State :=
  { s with handlers := Function.update s.handlers w (some ⟨form, pc⟩) }

/-- One atomic step. -/
def step (s : State) : Event → Option State
  | .receive form =>
      some { s.goto s.received form .entered with received := s.received + 1 }
  | .postLog w =>
      match s.handlers w with
      | some ⟨form, .entered⟩ =>
          some { s.goto w form .logged with posts := s.posts ++ [logPost w form] }
      | _ => none
  | .lock w =>
      match s.handlers w, s.owner with
      | some ⟨form, .logged⟩, none => some { s.goto w form .locked with owner := some w }
      | _, _ => none
  | .testAndSet w =>
      match s.handlers w with
      | some ⟨form, .locked⟩ =>
          if s.ackProcessIsRunning then some (s.goto w form .busy)
          else some { s.goto w form .claimed with ackProcessIsRunning := true }
      | _ => none
  | .unlock w =>
      match s.handlers w with
      -- `m.unlock(); return;`
      | some ⟨form, .busy⟩    => some { s.goto w form .finished with owner := none }
      | some ⟨form, .claimed⟩ => some { s.goto w form .waiting with owner := none }
      | _ => none
  | .wait w =>
      match s.handlers w with
      | some ⟨form, .waiting⟩ => some (s.goto w form .waited)
      | _ => none
  | .postRelease w =>
      match s.handlers w with
      | some ⟨form, .waited⟩ =>
          some { s.goto w form .posted with posts := s.posts ++ [releasePost w form] }
      | _ => none
  | .reset w =>
      match s.handlers w with
      -- the flag is written without taking `m`
      | some ⟨form, .posted⟩ => some { s.goto w form .finished with ackProcessIsRunning := false }
      | _ => none

/-- Astraea's `write` service. -/
def system : System State Event := ⟨initial, step⟩

/-- `step` by cases: what each event needs and what it leaves behind. -/
inductive Step (s : State) : Event → State → Prop
  | receive (form : Str) :
      Step s (.receive form) { s.goto s.received form .entered with received := s.received + 1 }
  | postLog {w : Nat} {form : Str} (h : s.handlers w = some ⟨form, .entered⟩) :
      Step s (.postLog w) { s.goto w form .logged with posts := s.posts ++ [logPost w form] }
  | lock {w : Nat} {form : Str} (h : s.handlers w = some ⟨form, .logged⟩) (ho : s.owner = none) :
      Step s (.lock w) { s.goto w form .locked with owner := some w }
  | testBusy {w : Nat} {form : Str} (h : s.handlers w = some ⟨form, .locked⟩)
      (hf : s.ackProcessIsRunning = true) : Step s (.testAndSet w) (s.goto w form .busy)
  | testClaim {w : Nat} {form : Str} (h : s.handlers w = some ⟨form, .locked⟩)
      (hf : s.ackProcessIsRunning = false) :
      Step s (.testAndSet w) { s.goto w form .claimed with ackProcessIsRunning := true }
  | unlockReturn {w : Nat} {form : Str} (h : s.handlers w = some ⟨form, .busy⟩) :
      Step s (.unlock w) { s.goto w form .finished with owner := none }
  | unlockGoOn {w : Nat} {form : Str} (h : s.handlers w = some ⟨form, .claimed⟩) :
      Step s (.unlock w) { s.goto w form .waiting with owner := none }
  | wait {w : Nat} {form : Str} (h : s.handlers w = some ⟨form, .waiting⟩) :
      Step s (.wait w) (s.goto w form .waited)
  | postRelease {w : Nat} {form : Str} (h : s.handlers w = some ⟨form, .waited⟩) :
      Step s (.postRelease w) { s.goto w form .posted with posts := s.posts ++ [releasePost w form] }
  | reset {w : Nat} {form : Str} (h : s.handlers w = some ⟨form, .posted⟩) :
      Step s (.reset w) { s.goto w form .finished with ackProcessIsRunning := false }

theorem step_cases {s s' : State} {e : Event} (h : step s e = some s') : Step s e s' := by
  cases e with
  | receive form => exact Option.some.inj h ▸ Step.receive form
  | postLog w =>
      simp only [step] at h
      split at h
      · exact Option.some.inj h ▸ Step.postLog ‹_›
      · cases h
  | lock w =>
      simp only [step] at h
      split at h
      · exact Option.some.inj h ▸ Step.lock ‹_› ‹_›
      · cases h
  | testAndSet w =>
      simp only [step] at h
      split at h
      · split at h
        · exact Option.some.inj h ▸ Step.testBusy ‹_› ‹_›
        · exact Option.some.inj h ▸ Step.testClaim ‹_› (Bool.eq_false_iff.mpr ‹_›)
      · cases h
  | unlock w =>
      simp only [step] at h
      split at h
      · exact Option.some.inj h ▸ Step.unlockReturn ‹_›
      · exact Option.some.inj h ▸ Step.unlockGoOn ‹_›
      · cases h
  | wait w =>
      simp only [step] at h
      split at h
      · exact Option.some.inj h ▸ Step.wait ‹_›
      · cases h
  | postRelease w =>
      simp only [step] at h
      split at h
      · exact Option.some.inj h ▸ Step.postRelease ‹_›
      · cases h
  | reset w =>
      simp only [step] at h
      split at h
      · exact Option.some.inj h ▸ Step.reset ‹_›
      · cases h

/-! ## Reading a state -/

/-- Between `m.lock()` and `m.unlock()`. -/
def Pc.holdsMutex : Pc → Bool
  | .locked | .busy | .claimed => true
  | _ => false

/-- Between setting `ack_process_is_running` and resetting it. -/
def Pc.inAckProcess : Pc → Bool
  | .claimed | .waiting | .waited | .posted => true
  | _ => false

/-- Set the flag, and has yet to post its release. -/
def Pc.owesRelease : Pc → Bool
  | .claimed | .waiting | .waited => true
  | _ => false

/-- Left its release behind, or returned without one. -/
def Pc.pastRelease : Pc → Bool
  | .posted | .finished => true
  | _ => false

/-- Posts nothing any more: it found the flag set, or is past its release. -/
def Pc.settled : Pc → Bool
  | .busy | .posted | .finished => true
  | _ => false

/-- Its log message was posted. -/
def Pc.hasLogged : Pc → Bool
  | .entered => false
  | _ => true

def Pc.isFinished : Pc → Bool
  | .finished => true
  | _ => false

/-- Handler `w` exists and stands where `p` says. -/
def Has (handlers : Nat → Option Handler) (p : Pc → Bool) (w : Nat) : Prop :=
  ∃ h, handlers w = some h ∧ p h.pc = true

instance (hs : Nat → Option Handler) (p : Pc → Bool) (w : Nat) : Decidable (Has hs p w) :=
  decidable_of_iff ((hs w).any (fun h => p h.pc) = true) (by simp [Has, Option.any_eq_true])

/-- The releases among some posts, in order. -/
def releasesOf (ps : List Posted) : List Posted := ps.filter (fun p => p.post.url = releaseUrl)

/-- No write handler is active. -/
def State.Quiet (s : State) : Prop := ∀ w, w < s.received → Has s.handlers Pc.isFinished w

instance (s : State) : Decidable s.Quiet :=
  inferInstanceAs (Decidable (∀ w, w < s.received → Has s.handlers Pc.isFinished w))

variable {hs : Nat → Option Handler} {p : Pc → Bool} {v w : Nat} {form : Str} {pc pc₀ : Pc}

theorem has_of_eq (h : hs w = some ⟨form, pc⟩) : Has hs p w ↔ p pc = true := by
  constructor
  · rintro ⟨h', hw, hp⟩
    rw [h] at hw
    obtain rfl := Option.some.inj hw
    exact hp
  · exact fun hp => ⟨⟨form, pc⟩, h, hp⟩

/-- Only the handler that moves can change what holds of it. -/
theorem has_update_ne (h : v ≠ w) (x : Option Handler) :
    Has (Function.update hs w x) p v ↔ Has hs p v := by
  unfold Has
  rw [Function.update_of_ne h]

theorem has_update_self : Has (Function.update hs w (some ⟨form, pc⟩)) p w ↔ p pc = true :=
  has_of_eq (Function.update_self ..)

/-- A move that `p` does not see. -/
theorem has_update_of_eq (h : hs w = some ⟨form, pc₀⟩) (hp : p pc = p pc₀) :
    Has (Function.update hs w (some ⟨form, pc⟩)) p v ↔ Has hs p v := by
  by_cases hvw : v = w
  · subst hvw
    rw [has_update_self, has_of_eq h, hp]
  · exact has_update_ne hvw _

theorem has_update : Has (Function.update hs w (some ⟨form, pc⟩)) p v ↔
    (v = w ∧ p pc = true) ∨ (v ≠ w ∧ Has hs p v) := by
  by_cases hvw : v = w
  · subst hvw
    rw [has_update_self]
    simp
  · rw [has_update_ne hvw]
    simp [hvw]

/-- A move out of `p`. -/
theorem has_update_false (hp : p pc = false) :
    Has (Function.update hs w (some ⟨form, pc⟩)) p v ↔ v ≠ w ∧ Has hs p v := by
  rw [has_update, hp]
  simp

/-- A move into `p`. -/
theorem has_update_true (hp : p pc = true) :
    Has (Function.update hs w (some ⟨form, pc⟩)) p v ↔ v = w ∨ Has hs p v := by
  rw [has_update, hp]
  by_cases hvw : v = w
  · simp [hvw]
  · simp [hvw]

end Astraea
end AstraeaGateway
