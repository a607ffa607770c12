import AstraeaGateway.Transition
import Mathlib.Algebra.BigOperators.Group.Finset.Basic
import Mathlib.Algebra.Ring.Nat

/-!
# `Progress` — runs that come to an end

The other half of a system's correctness: besides what never happens, that it does not go on for ever and
does not stop too early. `Consumes` says that certain events use up a supply of work `μ`. Then their runs are
bounded (`Consumes.run`, and `Consumes.run_idling` with other events in between), and one of them reaches a
state where none of these events is enabled (`Consumes.exists_stuck`); what such a state looks like is the
business of the system at hand.

`work` is the supply of a table of parties, each with the steps it has still to take.
-/

namespace Transition

variable {σ ε α : Type}

namespace System

/-- While `P` holds, each event of `I` keeps it and uses up some of `μ`. -/
structure Consumes (M : System σ ε) (I : ε → Prop) (P : σ → Prop) (μ : σ → Nat) : Prop where
  keeps : ∀ s e s', P s → I e → M.step s e = some s' → P s'
  uses  : ∀ s e s', P s → I e → M.step s e = some s' → μ s' < μ s

/-- None of the events of `I` is enabled. -/
def Stuck (M : System σ ε) (I : ε → Prop) (s : σ) : Prop := ∀ e, I e → M.step s e = none

variable {M : System σ ε} {I : ε → Prop} {P : σ → Prop} {μ : σ → Nat} {s s' : σ} {es : List ε}

/-- **Runs are bounded** by the supply, less what is left of it: events that neither use it nor break the
    invariant may come in between, and do not count. -/
theorem Consumes.run_idling (h : M.Consumes I P μ) {idle : ε → Bool}
    (hidle : ∀ s e s', P s → idle e = true → M.step s e = some s' → P s' ∧ μ s' = μ s)
    (hP : P s) (hes : ∀ e ∈ es, I e ∨ idle e = true) (hrun : M.run s es = some s') :
    P s' ∧ es.countP (fun e => !idle e) + μ s' ≤ μ s := by
  induction es generalizing s with
  | nil =>
      obtain rfl := Option.some.inj hrun
      exact ⟨hP, by rw [List.countP_nil, Nat.zero_add]⟩
  | cons e es ih =>
      obtain ⟨s₁, hstep, hrest⟩ := Option.bind_eq_some_iff.mp hrun
      have htail : ∀ x ∈ es, I x ∨ idle x = true := fun x hx => hes x (List.mem_cons_of_mem e hx)
      rw [List.countP_cons]
      cases he : idle e with
      | true =>
          obtain ⟨hP', hsame⟩ := hidle s e s₁ hP he hstep
          obtain ⟨hend, hle⟩ := ih hP' htail hrest
          refine ⟨hend, ?_⟩
          rw [hsame] at hle
          simpa using hle
      | false =>
          have hI : I e := (hes e List.mem_cons_self).resolve_right (by rw [he]; exact Bool.false_ne_true)
          obtain ⟨hend, hle⟩ := ih (h.keeps s e s₁ hP hI hstep) htail hrest
          have hlt := h.uses s e s₁ hP hI hstep
          refine ⟨hend, ?_⟩
          show _ + 1 + μ s' ≤ μ s
          omega

/-- Without events in between. -/
theorem Consumes.run (h : M.Consumes I P μ) (hP : P s) (hes : ∀ e ∈ es, I e)
    (hrun : M.run s es = some s') : P s' ∧ es.length + μ s' ≤ μ s := by
  have hnone : ∀ s e s', P s → (fun _ => false) e = true → M.step s e = some s' → P s' ∧ μ s' = μ s :=
    fun _ _ _ _ hidle => nomatch hidle
  have hall := h.run_idling hnone hP (fun e he => Or.inl (hes e he)) hrun
  rwa [show es.countP (fun _ => !false) = es.length from List.countP_eq_length.mpr (fun _ _ => rfl)] at hall

/-- **Some run goes all the way.** -/
theorem Consumes.exists_stuck (h : M.Consumes I P μ) (hP : P s) :
    ∃ es s', (∀ e ∈ es, I e) ∧ M.run s es = some s' ∧ M.Stuck I s' := by
  -- induction on the supply: either nothing is enabled, or a step uses some of it
  generalize hμ : μ s = n
  induction n using Nat.strongRecOn generalizing s with
  | ind n ih =>
      by_cases hstuck : M.Stuck I s
      · exact ⟨[], s, nofun, rfl, hstuck⟩
      · unfold Stuck at hstuck
        push Not at hstuck
        obtain ⟨e, he, hne⟩ := hstuck
        obtain ⟨s₁, hstep⟩ := Option.ne_none_iff_exists'.mp hne
        obtain ⟨es, s', hes, hrun, hend⟩ :=
          ih (μ s₁) (hμ ▸ h.uses s e s₁ hP he hstep) (h.keeps s e s₁ hP he hstep) rfl
        refine ⟨e :: es, s', ?_, by rw [run_cons, hstep]; exact hrun, hend⟩
        intro x hx
        rcases List.mem_cons.mp hx with rfl | hx
        · exact he
        · exact hes x hx

end System

/-! ## The work of a table of parties -/

section Work

variable {table : Nat → Option α} {cost : α → Nat} {n i : Nat} {x y : α}

/-- What the first `n` parties have still to do. -/
def work (cost : α → Nat) (table : Nat → Option α) (n : Nat) : Nat :=
  ∑ i ∈ Finset.range n, (table i).elim 0 cost

/-- A party that moves changes its own part. -/
theorem work_update (cost : α → Nat) (hi : i < n) (hx : table i = some x) (y : α) :
    work cost (Function.update table i (some y)) n + cost x = work cost table n + cost y := by
  have hmem : i ∈ Finset.range n := Finset.mem_range.mpr hi
  have hrest : ∑ j ∈ (Finset.range n).erase i, (Function.update table i (some y) j).elim 0 cost
      = ∑ j ∈ (Finset.range n).erase i, (table j).elim 0 cost := by
    refine Finset.sum_congr rfl (fun j hj => ?_)
    rw [Function.update_of_ne (Finset.ne_of_mem_erase hj)]
  unfold work
  rw [← Finset.add_sum_erase _ _ hmem, ← Finset.add_sum_erase (Finset.range n) _ hmem, hrest, hx,
    Function.update_self, Option.elim_some, Option.elim_some]
  omega

theorem work_lt (hi : i < n) (hx : table i = some x) (hlt : cost y < cost x) :
    work cost (Function.update table i (some y)) n < work cost table n := by
  have h := work_update cost hi hx y
  omega

theorem work_le {b : Nat} (hb : ∀ i < n, ∀ x, table i = some x → cost x ≤ b) : work cost table n ≤ b * n := by
  induction n with
  | zero => exact Nat.le_refl 0
  | succ n ih =>
      have hlast : (table n).elim 0 cost ≤ b := by
        cases hx : table n with
        | none => exact Nat.zero_le b
        | some x => exact hb n (Nat.lt_succ_self n) x hx
      have hrest := ih (fun i hi => hb i (Nat.lt_succ_of_lt hi))
      unfold work at hrest ⊢
      rw [Finset.sum_range_succ, Nat.mul_succ]
      exact Nat.add_le_add hrest hlast

end Work

end Transition
