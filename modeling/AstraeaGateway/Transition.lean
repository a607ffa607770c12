import Mathlib.Data.List.Forall2
import Mathlib.Data.List.Induction
import Mathlib.Logic.Function.Basic

/-!
# `Transition` — event-driven systems, their runs, and the two rules for proving things about them

A `System` takes one event at a time; `step s e = none` says that `e` is not enabled in `s`. The step
function is executable, so a concrete schedule is checked by evaluating `run`; what holds of *every*
schedule is proved along `Path`, the runs all of whose steps meet a condition `C` on the state before
the step and the event taken.

* `Path.invariant` — what one step preserves, every run preserves. The invariant sees the trace, so a
  statement about the order of events is an invariant like any other.
* `Path.simulate` — if every step is matched by one abstract step, every run is matched by one abstract
  run, event by event.

`Precedes a b tr` is the order of two events in a trace. The lemmas on tables at the end are for systems of
many parties, where a step replaces the entry of the party that takes it.
-/

namespace Transition

/-- A system over states `σ` and events `ε`. -/
structure System (σ ε : Type) where
  init : σ
  step : σ → ε → Option σ

variable {σ ε α κ : Type}

namespace System

/-- Take the events of a list in order; `none` as soon as one of them is not enabled. -/
def run (M : System σ ε) : σ → List ε → Option σ
  | s, []      => some s
  | s, e :: es => (M.step s e).bind (fun s' => M.run s' es)

/-- Every step of the run of `es` from `s` meets `C` (up to the first event that is not enabled). -/
def Meets (M : System σ ε) (C : σ → ε → Prop) : σ → List ε → Prop
  | _, []      => True
  | s, e :: es => C s e ∧ ∀ s', M.step s e = some s' → M.Meets C s' es

/-- Like `run`, but stop at the first step that fails the test `c`. -/
def runWhere (M : System σ ε) (c : σ → ε → Bool) : σ → List ε → Option σ
  | s, []      => some s
  | s, e :: es => if c s e then (M.step s e).bind (fun s' => M.runWhere c s' es) else none

/-- `M.Path C tr s`: the trace `tr` leads from the initial state to `s`, and each of its steps meets `C`. -/
inductive Path (M : System σ ε) (C : σ → ε → Prop) : List ε → σ → Prop
  | start : Path M C [] M.init
  | snoc {tr : List ε} {s s' : σ} {e : ε} :
      Path M C tr s → C s e → M.step s e = some s' → Path M C (tr ++ [e]) s'

/-- No condition on the steps: `M.Path Any tr s` are all runs of the system. -/
def Any : σ → ε → Prop := fun _ _ => True

variable {M : System σ ε} {C D : σ → ε → Prop} {tr : List ε} {s : σ}

/-! ## Runs -/

@[simp] theorem run_nil (M : System σ ε) (s : σ) : M.run s [] = some s := rfl

theorem run_cons (M : System σ ε) (s : σ) (e : ε) (es : List ε) :
    M.run s (e :: es) = (M.step s e).bind (fun s' => M.run s' es) := rfl

theorem run_append (M : System σ ε) (es fs : List ε) (s : σ) :
    M.run s (es ++ fs) = (M.run s es).bind (fun s' => M.run s' fs) := by
  induction es generalizing s with
  | nil => rfl
  | cons e es ih =>
      rw [List.cons_append, run_cons, run_cons]
      cases hstep : M.step s e with
      | none => rfl
      | some s' => exact ih s'

theorem run_concat {es : List ε} {e : ε} {s s₁ s₂ : σ} (hrun : M.run s es = some s₁)
    (hstep : M.step s₁ e = some s₂) : M.run s (es ++ [e]) = some s₂ := by
  rw [run_append, hrun, Option.bind_some, run_cons, hstep]
  rfl

/-! ## Paths -/

theorem Path.mono (hCD : ∀ s e, C s e → D s e) (h : M.Path C tr s) : M.Path D tr s := by
  induction h with
  | start => exact Path.start
  | snoc _ hc hstep ih => exact Path.snoc ih (hCD _ _ hc) hstep

theorem Path.run (h : M.Path C tr s) : M.run M.init tr = some s := by
  induction h with
  | start => rfl
  | snoc _ _ hstep ih => exact run_concat ih hstep

/-- A path goes on along any run whose steps meet the condition. -/
theorem Path.extend {es : List ε} {s' : σ} (h : M.Path C tr s) (hm : M.Meets C s es)
    (hrun : M.run s es = some s') : M.Path C (tr ++ es) s' := by
  induction es generalizing tr s with
  | nil =>
      rw [run_nil] at hrun
      obtain rfl := Option.some.inj hrun
      rw [List.append_nil]
      exact h
  | cons e es ih =>
      rw [run_cons] at hrun
      obtain ⟨s₁, hstep, hrest⟩ := Option.bind_eq_some_iff.mp hrun
      rw [List.append_cons]
      exact ih (Path.snoc h hm.1 hstep) (hm.2 s₁ hstep) hrest

theorem meets_any (M : System σ ε) (s : σ) (es : List ε) : M.Meets Any s es := by
  induction es generalizing s with
  | nil => trivial
  | cons e es ih => exact ⟨trivial, fun s' _ => ih s'⟩

theorem path_of_run (hrun : M.run M.init tr = some s) : M.Path Any tr s := by
  have h := Path.extend Path.start (meets_any M M.init tr) hrun
  rwa [List.nil_append] at h

/-- A schedule that evaluates to a state where the test `p` succeeds is a run to such a state. -/
theorem exists_path_of_run (M : System σ ε) (tr : List ε) (p : σ → Bool)
    (h : (M.run M.init tr).map p = some true) : ∃ s, M.Path Any tr s ∧ p s = true := by
  obtain ⟨s, hrun, hp⟩ := Option.map_eq_some_iff.mp h
  exact ⟨s, path_of_run hrun, hp⟩

theorem path_of_meets (hm : M.Meets C M.init tr) (hrun : M.run M.init tr = some s) :
    M.Path C tr s := by
  have h := Path.extend Path.start hm hrun
  rwa [List.nil_append] at h

theorem meets_of_runWhere {c : σ → ε → Bool} (hc : ∀ s e, c s e = true → C s e) {es : List ε} {s' : σ}
    (h : M.runWhere c s es = some s') : M.Meets C s es ∧ M.run s es = some s' := by
  induction es generalizing s with
  | nil => exact ⟨trivial, h⟩
  | cons e es ih =>
      rw [runWhere] at h
      split at h
      · next hce =>
          obtain ⟨s₁, hstep, hrest⟩ := Option.bind_eq_some_iff.mp h
          obtain ⟨hm, hrun⟩ := ih hrest
          refine ⟨⟨hc s e hce, fun s₂ hs₂ => ?_⟩, by rw [run_cons, hstep]; exact hrun⟩
          obtain rfl := Option.some.inj (hstep.symm.trans hs₂)
          exact hm
      · cases h

/-- A schedule whose steps pass a test for `C`, evaluated to a state where the test `p` succeeds. -/
theorem exists_path_of_runWhere (M : System σ ε) (tr : List ε) (c : σ → ε → Bool) (p : σ → Bool)
    (hc : ∀ s e, c s e = true → C s e) (h : (M.runWhere c M.init tr).map p = some true) :
    ∃ s, M.Path C tr s ∧ p s = true := by
  obtain ⟨s, hrun, hp⟩ := Option.map_eq_some_iff.mp h
  obtain ⟨hm, hrun⟩ := meets_of_runWhere hc hrun
  exact ⟨s, path_of_meets hm hrun, hp⟩

/-! ## The invariant rule -/

/-- **What every step preserves holds at the end of every run.** -/
theorem Path.invariant {P : List ε → σ → Prop} (h0 : P [] M.init)
    (hstep : ∀ tr s e s', M.Path C tr s → P tr s → C s e → M.step s e = some s' → P (tr ++ [e]) s')
    (h : M.Path C tr s) : P tr s := by
  induction h with
  | start => exact h0
  | snoc hpath hc hs ih => exact hstep _ _ _ _ hpath ih hc hs

/-- The rule for an invariant of the state alone. -/
theorem Path.invariant_state {P : σ → Prop} (h0 : P M.init)
    (hstep : ∀ s e s', P s → C s e → M.step s e = some s' → P s') (h : M.Path C tr s) : P s :=
  Path.invariant (P := fun _ s => P s) h0 (fun _ s e s' _ hP hc hs => hstep s e s' hP hc hs) h

/-- The rule for a run from any state. -/
theorem run_invariant {P : σ → Prop} (hstep : ∀ s e s', P s → M.step s e = some s' → P s')
    {es : List ε} {s' : σ} (h0 : P s) (hrun : M.run s es = some s') : P s' := by
  induction es generalizing s with
  | nil => exact Option.some.inj hrun ▸ h0
  | cons e es ih =>
      obtain ⟨s₁, hs₁, hrest⟩ := Option.bind_eq_some_iff.mp hrun
      exact ih (hstep s e s₁ h0 hs₁) hrest

/-- The rule for a run that must not get stuck: where an invariant and the condition on the step enable
    the step, a schedule whose steps meet the condition runs to its end. -/
theorem exists_run_of_meets {P : σ → Prop} (hstep : ∀ s e, P s → C s e → ∃ s', M.step s e = some s' ∧ P s')
    {es : List ε} (h0 : P s) (hm : M.Meets C s es) : ∃ s', M.run s es = some s' := by
  induction es generalizing s with
  | nil => exact ⟨s, rfl⟩
  | cons e es ih =>
      obtain ⟨s₁, hs₁, hP⟩ := hstep s e h0 hm.1
      rw [run_cons, hs₁, Option.bind_some]
      exact ih hP (hm.2 s₁ hs₁)

/-- **The rule for what lets a schedule run to its end.** Where, under an invariant, a condition is exactly
    what enables a step, a schedule runs to its end exactly if its steps meet the condition. -/
theorem exists_run_iff_meets {P : σ → Prop}
    (hstep : ∀ s e, P s → C s e → ((∃ s', M.step s e = some s') ↔ D s e) ∧ ∀ s', M.step s e = some s' → P s')
    {es : List ε} (h0 : P s) (hm : M.Meets C s es) : (∃ s', M.run s es = some s') ↔ M.Meets D s es := by
  induction es generalizing s with
  | nil => exact iff_of_true ⟨s, rfl⟩ trivial
  | cons e es ih =>
      obtain ⟨henabled, hkeeps⟩ := hstep s e h0 hm.1
      constructor
      · rintro ⟨s', hrun⟩
        obtain ⟨s₁, hs₁, hrest⟩ := Option.bind_eq_some_iff.mp hrun
        refine ⟨henabled.mp ⟨s₁, hs₁⟩, fun s₂ hs₂ => ?_⟩
        obtain rfl := Option.some.inj (hs₁.symm.trans hs₂)
        exact (ih (hkeeps s₁ hs₁) (hm.2 s₁ hs₁)).mp ⟨s', hrest⟩
      · rintro ⟨hD, hrest⟩
        obtain ⟨s₁, hs₁⟩ := henabled.mpr hD
        rw [run_cons, hs₁, Option.bind_some]
        exact (ih (hkeeps s₁ hs₁) (hm.2 s₁ hs₁)).mpr (hrest s₁ hs₁)

/-! ## Forward simulation -/

/-- **Step by step, hence run by run.** If related states stay related under a concrete step and one
    abstract step with a matching label, each concrete run is matched by an abstract run whose labels
    match one by one. -/
theorem Path.simulate {A : System α κ} {R : σ → α → Prop} {L : ε → κ → Prop} (h0 : R M.init A.init)
    (hstep : ∀ s a e s', R s a → C s e → M.step s e = some s' →
      ∃ k a', L e k ∧ A.step a k = some a' ∧ R s' a')
    (h : M.Path C tr s) : ∃ ks a, A.Path Any ks a ∧ List.Forall₂ L tr ks ∧ R s a := by
  induction h with
  | start => exact ⟨[], A.init, Path.start, List.Forall₂.nil, h0⟩
  | snoc _ hc hs ih =>
      obtain ⟨ks, a, hA, hL, hR⟩ := ih
      obtain ⟨k, a', hk, ha', hR'⟩ := hstep _ _ _ _ hR hc hs
      exact ⟨ks ++ [k], a', Path.snoc hA trivial ha',
        List.rel_append hL (List.Forall₂.cons hk List.Forall₂.nil), hR'⟩

/-- `b` is reached from `a` in some steps that meet the condition. -/
inductive Reaches (M : System σ ε) (C : σ → ε → Prop) : σ → σ → Prop
  | refl {a : σ} : Reaches M C a a
  | snoc {a b c : σ} {e : ε} : Reaches M C a b → C b e → M.step b e = some c → Reaches M C a c

theorem Reaches.trans {a b c : σ} (hab : M.Reaches C a b) (hbc : M.Reaches C b c) : M.Reaches C a c := by
  induction hbc with
  | refl => exact hab
  | snoc _ hc hs ih => exact Reaches.snoc ih hc hs

theorem Reaches.of_run {a b : σ} {es : List ε} (hC : ∀ e ∈ es, ∀ a, C a e) (hrun : M.run a es = some b) :
    M.Reaches C a b := by
  induction es generalizing a with
  | nil =>
      obtain rfl := Option.some.inj hrun
      exact Reaches.refl
  | cons e es ih =>
      obtain ⟨a₁, hstep, hrest⟩ := Option.bind_eq_some_iff.mp hrun
      have htail : M.Reaches C a₁ b := ih (fun e' he' => hC e' (List.mem_cons_of_mem e he')) hrest
      exact Reaches.trans (Reaches.snoc Reaches.refl (hC e List.mem_cons_self a) hstep) htail

theorem Reaches.path {a b : σ} (hab : M.Reaches C a b) (h : M.Path C tr a) : ∃ tr', M.Path C tr' b := by
  induction hab with
  | refl => exact ⟨tr, h⟩
  | snoc _ hc hs ih =>
      obtain ⟨tr', h'⟩ := ih
      exact ⟨tr' ++ [_], Path.snoc h' hc hs⟩

/-- **Many steps for one.** If related states stay related under a concrete step and some abstract steps,
    each concrete run has an abstract run that ends in a related state. -/
theorem Path.embed {A : System α κ} {R : σ → α → Prop} {D : α → κ → Prop} (h0 : R M.init A.init)
    (hstep : ∀ s a e s', R s a → C s e → M.step s e = some s' → ∃ a', A.Reaches D a a' ∧ R s' a')
    (h : M.Path C tr s) : ∃ ks a, A.Path D ks a ∧ R s a := by
  induction h with
  | start => exact ⟨[], A.init, Path.start, h0⟩
  | snoc _ hc hs ih =>
      obtain ⟨ks, a, hA, hR⟩ := ih
      obtain ⟨a', hreach, hR'⟩ := hstep _ _ _ _ hR hc hs
      obtain ⟨ks', hA'⟩ := hreach.path hA
      exact ⟨ks', a', hA', hR'⟩

end System

/-! ## The order of events in a trace -/

/-- `a` occurs in `tr` before some occurrence of `b`. -/
def Precedes (a b : ε) (tr : List ε) : Prop :=
  ∃ pre post, tr = pre ++ b :: post ∧ a ∈ pre

theorem not_precedes_nil {a b : ε} : ¬ Precedes a b [] := by
  rintro ⟨pre, post, htr, _⟩
  simp at htr

theorem precedes_cons {a b e : ε} {tr : List ε} :
    Precedes a b (e :: tr) ↔ (a = e ∧ b ∈ tr) ∨ Precedes a b tr := by
  constructor
  · rintro ⟨pre, post, htr, ha⟩
    cases pre with
    | nil => simp at ha
    | cons x pre =>
        obtain ⟨rfl, rfl⟩ := List.cons.inj htr
        rcases List.mem_cons.mp ha with rfl | ha
        · exact Or.inl ⟨rfl, List.mem_append_right _ List.mem_cons_self⟩
        · exact Or.inr ⟨pre, post, rfl, ha⟩
  · rintro (⟨rfl, hb⟩ | ⟨pre, post, rfl, ha⟩)
    · obtain ⟨pre, post, rfl⟩ := List.append_of_mem hb
      exact ⟨a :: pre, post, rfl, List.mem_cons_self⟩
    · exact ⟨e :: pre, post, rfl, List.mem_cons_of_mem _ ha⟩

theorem Precedes.mem_left {a b : ε} {tr : List ε} (h : Precedes a b tr) : a ∈ tr := by
  obtain ⟨pre, post, rfl, ha⟩ := h
  exact List.mem_append_left _ ha

theorem Precedes.mem_right {a b : ε} {tr : List ε} (h : Precedes a b tr) : b ∈ tr := by
  obtain ⟨pre, post, rfl, _⟩ := h
  exact List.mem_append_right _ List.mem_cons_self

/-- The last event comes after all others. -/
theorem precedes_last {a : ε} {tr : List ε} (h : a ∈ tr) (e : ε) : Precedes a e (tr ++ [e]) :=
  ⟨tr, [], rfl, h⟩

/-- A longer trace keeps the order, and adds a pair exactly when its last event is the later one. -/
theorem precedes_concat {a b e : ε} {tr : List ε} :
    Precedes a b (tr ++ [e]) ↔ Precedes a b tr ∨ (e = b ∧ a ∈ tr) := by
  constructor
  · rintro ⟨pre, post, htr, ha⟩
    rcases List.eq_nil_or_concat post with rfl | ⟨post', e', rfl⟩
    · obtain ⟨rfl, he⟩ := List.append_inj' htr rfl
      exact Or.inr ⟨by simpa using he, ha⟩
    · rw [List.concat_eq_append, ← List.cons_append, ← List.append_assoc] at htr
      obtain ⟨rfl, _⟩ := List.append_inj' htr rfl
      exact Or.inl ⟨pre, post', rfl, ha⟩
  · rintro (⟨pre, post, rfl, ha⟩ | ⟨rfl, ha⟩)
    · exact ⟨pre, post ++ [e], by simp, ha⟩
    · exact ⟨tr, [], rfl, ha⟩

theorem Precedes.concat {a b : ε} {tr : List ε} (h : Precedes a b tr) (e : ε) :
    Precedes a b (tr ++ [e]) := precedes_concat.mpr (Or.inl h)

/-- Where a list is ordered by `R`, elements stand in the order that `R` leaves open to them. -/
theorem not_precedes_of_pairwise {R : ε → ε → Prop} {a b : ε} {tr : List ε} (h : tr.Pairwise R)
    (hab : ¬ R a b) : ¬ Precedes a b tr := by
  rintro ⟨pre, post, rfl, ha⟩
  exact hab ((List.pairwise_append.mp h).2.2 a ha b List.mem_cons_self)

theorem precedes_of_pairwise {R : ε → ε → Prop} {a b : ε} {tr : List ε} (h : tr.Pairwise R)
    (ha : a ∈ tr) (hb : b ∈ tr) (hne : a ≠ b) (hba : ¬ R b a) : Precedes a b tr := by
  obtain ⟨pre, post, rfl⟩ := List.append_of_mem hb
  rcases List.mem_append.mp ha with ha | ha
  · exact ⟨pre, post, rfl, ha⟩
  · rcases List.mem_cons.mp ha with rfl | ha
    · exact absurd rfl hne
    · have hpost := (List.pairwise_append.mp h).2.1
      exact absurd ((List.pairwise_cons.mp hpost).1 a ha) hba

/-! ## Tables of parties -/

section Table

variable {ι : Type} [DecidableEq ι] {table : ι → Option α} {i j : ι} {x y : α}

theorem update_eq_some (h : Function.update table i (some x) j = some y) :
    (j = i ∧ y = x) ∨ (j ≠ i ∧ table j = some y) := by
  by_cases hji : j = i
  · subst hji
    rw [Function.update_self] at h
    exact Or.inl ⟨rfl, (Option.some.inj h).symm⟩
  · rw [Function.update_of_ne hji] at h
    exact Or.inr ⟨hji, h⟩

theorem update_eq_none (h : Function.update table i (some x) j = none) : j ≠ i ∧ table j = none := by
  have hji : j ≠ i := by
    rintro rfl
    rw [Function.update_self] at h
    cases h
  rw [Function.update_of_ne hji] at h
  exact ⟨hji, h⟩

/-- A new party leaves the entries of the others alone. -/
theorem update_of_fresh (hi : table i = none) (hj : table j = some y) (x : α) :
    Function.update table i (some x) j = some y := by
  have hji : j ≠ i := by
    rintro rfl
    rw [hi] at hj
    cases hj
  rw [Function.update_of_ne hji]
  exact hj

/-- A party that has an entry still has one after any move. -/
theorem update_known (hj : ∃ z, table j = some z) (i : ι) (x : α) :
    ∃ z, Function.update table i (some x) j = some z := by
  by_cases hji : j = i
  · exact ⟨x, by rw [hji, Function.update_self]⟩
  · rw [Function.update_of_ne hji]
    exact hj

/-- What the party that moves keeps, every party keeps. -/
theorem update_keeps {P : α → Prop} (hi : table i = some x) (hP : P x → P y)
    (hj : ∃ z, table j = some z ∧ P z) : ∃ z, Function.update table i (some y) j = some z ∧ P z := by
  obtain ⟨z, hz, hPz⟩ := hj
  by_cases hji : j = i
  · subst hji
    obtain rfl := Option.some.inj (hi.symm.trans hz)
    exact ⟨y, Function.update_self .., hP hPz⟩
  · exact ⟨z, by rw [Function.update_of_ne hji]; exact hz, hPz⟩

end Table

end Transition
