/-!
# `Clock` — successive readings of the wall clock

`time(nullptr)` is modelled by the sequence of values it returns: the `t`-th call of an execution returns
`clock t`. The readings never go back, which the type carries as a field.
-/

namespace AstraeaGateway

/-- The successive readings of a clock that never goes back, in seconds. -/
structure Clock where
  reading : Nat → Int
  mono    : ∀ ⦃i j : Nat⦄, i ≤ j → reading i ≤ reading j

instance : CoeFun Clock (fun _ => Nat → Int) := ⟨Clock.reading⟩

/-- A clock that returns the same value at every reading. -/
def Clock.held (now : Int) : Clock := ⟨fun _ => now, fun _ _ _ => Int.le_refl _⟩

@[simp] theorem Clock.held_apply (now : Int) (t : Nat) : Clock.held now t = now := rfl

/-- The clock without its first `m` readings. -/
def Clock.after (clock : Clock) (m : Nat) : Clock :=
  ⟨fun t => clock (m + t), fun _ _ hij => clock.mono (Nat.add_le_add_left hij m)⟩

@[simp] theorem Clock.after_apply (clock : Clock) (m t : Nat) : clock.after m t = clock (m + t) := rfl

end AstraeaGateway
