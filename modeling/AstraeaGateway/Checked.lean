import Mathlib.Data.List.Basic

/-!
# `Checked` — pre- and postconditions of computations that can fail

`Sat r Q E`: what `r` returns meets `Q`, and what it fails with meets `E`. `Returns c a r E`: `r` returns `a`
exactly under the condition `c`. The rules follow the computation: one for each way to build an `Except`, and
one to change a condition.
-/

namespace Checked

variable {ε α β : Type} {r : Except ε α} {f : α → Except ε β} {Q Q' : α → Prop} {R : β → Prop} {E E' : ε → Prop}

/-- What `r` returns meets `Q`, and what it fails with meets `E`. -/
def Sat : Except ε α → (α → Prop) → (ε → Prop) → Prop
  | .ok a, Q, _    => Q a
  | .error e, _, E => E e

theorem Sat.pure {a : α} (h : Q a) : Sat (Pure.pure a : Except ε α) Q E := h

theorem Sat.ok {a : α} (h : Q a) : Sat (.ok a : Except ε α) Q E := h

theorem Sat.error {e : ε} (h : E e) : Sat (.error e : Except ε α) Q E := h

/-- **The rule for a sequence**: the first part ends in what the second starts from. -/
theorem Sat.bind (h : Sat r Q E) (hf : ∀ a, Q a → Sat (f a) R E) : Sat (r >>= f) R E := by
  cases r with
  | ok a => exact hf a h
  | error e => exact h

/-- The rule of consequence. -/
theorem Sat.mono (h : Sat r Q E) (hQ : ∀ a, Q a → Q' a) (hE : ∀ e, E e → E' e) : Sat r Q' E' := by
  cases r with
  | ok a => exact hQ a h
  | error e => exact hE e h

/-- The rule for a test: each branch may use its outcome. -/
theorem Sat.ite {c : Prop} [Decidable c] {r' : Except ε α} (ht : c → Sat r Q E) (hf : ¬ c → Sat r' Q E) :
    Sat (if c then r else r') Q E := by
  split
  · exact ht ‹c›
  · exact hf ‹¬ c›

/-- A postcondition of a computation whose result is known. -/
theorem Sat.of_ok {a : α} (h : Sat r Q E) (hr : r = .ok a) : Q a := by
  subst hr
  exact h

theorem Sat.of_error {e : ε} (h : Sat r Q E) (hr : r = .error e) : E e := by
  subst hr
  exact h

/-- The value of a computation that goes on. -/
theorem bind_of_ok {a : α} (hr : r = .ok a) : r >>= f = f a := by
  subst hr
  rfl

theorem bind_of_error {e : ε} (hr : r = .error e) : r >>= f = .error e := by
  subst hr
  rfl

/-! ## Exact results -/

/-- `r` returns `a` if `c` holds, and fails with what meets `E` otherwise. -/
def Returns (c : Prop) (a : α) (r : Except ε α) (E : ε → Prop) : Prop :=
  (c → r = .ok a) ∧ (¬ c → ∃ e, E e ∧ r = .error e)

variable {c d : Prop} {a a' : α} {b : β}

theorem Returns.of_ok (h : r = .ok a) (hc : c) : Returns c a r E := ⟨fun _ => h, fun hne => absurd hc hne⟩

theorem Returns.of_error {e : ε} (h : r = .error e) (he : E e) (hc : ¬ c) : Returns c a r E :=
  ⟨fun h => absurd h hc, fun _ => ⟨e, he, h⟩⟩

/-- A test of the condition. -/
theorem Returns.test [Decidable c] {e : ε} (he : E e) : Returns c a (if c then .ok a else .error e) E :=
  ⟨fun hc => if_pos hc, fun hnc => ⟨e, he, if_neg hnc⟩⟩

/-- The condition, without the value. -/
theorem Returns.exists_iff (h : Returns c a r E) : (∃ b, r = .ok b) ↔ c := by
  constructor
  · rintro ⟨b, hb⟩
    by_contra hnc
    obtain ⟨e, -, he⟩ := h.2 hnc
    rw [hb] at he
    cases he
  · exact fun hc => ⟨a, h.1 hc⟩

/-- What is returned, without the condition. -/
theorem Returns.sat (h : Returns c a r E) : Sat r (fun b => b = a) E := by
  by_cases hc : c
  · rw [h.1 hc]
    exact Sat.ok rfl
  · obtain ⟨e, he, hr⟩ := h.2 hc
    rw [hr]
    exact Sat.error he

/-- Both parts return exactly if both conditions hold. -/
theorem Returns.bind (h : Returns c a r E) (hf : Returns d b (f a) E) : Returns (c ∧ d) b (r >>= f) E := by
  refine ⟨fun hcd => ?_, fun hncd => ?_⟩
  · rw [bind_of_ok (h.1 hcd.1)]
    exact hf.1 hcd.2
  · by_cases hc : c
    · rw [bind_of_ok (h.1 hc)]
      exact hf.2 (fun hd => hncd ⟨hc, hd⟩)
    · obtain ⟨e, he, hr⟩ := h.2 hc
      exact ⟨e, he, bind_of_error hr⟩

/-- Nothing that comes behind fails. -/
theorem Returns.and_then (h : Returns c a r E) (hf : f a = .ok b) : Returns c b (r >>= f) E := by
  refine ⟨fun hc => ?_, fun hnc => ?_⟩
  · rw [bind_of_ok (h.1 hc)]
    exact hf
  · obtain ⟨e, he, hr⟩ := h.2 hnc
    exact ⟨e, he, bind_of_error hr⟩

theorem Returns.congr (h : Returns c a r E) (hc : d ↔ c) (ha : a = a') : Returns d a' r E := by
  subst ha
  exact ⟨fun hd => h.1 (hc.mp hd), fun hnd => h.2 (fun hc' => hnd (hc.mpr hc'))⟩

end Checked
