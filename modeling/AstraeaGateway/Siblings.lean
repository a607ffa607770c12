import Mathlib.Data.List.Nodup
import Mathlib.Logic.Function.Basic

/-!
# `Siblings` — doubly linked lists of children

A node points to its `next` and `prev` sibling and to its first `child`; `none` is the null pointer.
`L.Linked before xs after`: the nodes `xs` are linked both ways in this order, the first one back to `before`
and the last one on to `after`. A list is cut anywhere by `linked_append`, its ends are redirected by
`setNext_last` and `setPrev_head`, and writes elsewhere leave it alone (`Linked.congr`).
-/

namespace Siblings

structure Links (α : Type) where
  next  : α → Option α
  prev  : α → Option α
  child : α → Option α

namespace Links

variable {α : Type} {L L' : Links α} {before after before' after' : Option α} {xs ys : List α} {x : α}

def Linked (L : Links α) : Option α → List α → Option α → Prop
  | _, [], _               => True
  | before, x :: xs, after => L.prev x = before ∧ L.next x = xs.head?.or after ∧ L.Linked (some x) xs after

theorem linked_singleton : L.Linked before [x] after ↔ L.prev x = before ∧ L.next x = after :=
  ⟨fun h => ⟨h.1, h.2.1⟩, fun h => ⟨h.1, h.2, trivial⟩⟩

/-- A list is cut between any two of its nodes. -/
theorem linked_append : L.Linked before (xs ++ ys) after ↔
    L.Linked before xs (ys.head?.or after) ∧ L.Linked (xs.getLast?.or before) ys after := by
  induction xs generalizing before with
  | nil => simp only [Linked, List.nil_append, List.getLast?_nil, Option.none_or, true_and]
  | cons x xs ih =>
      have hlast : ((x :: xs).getLast?).or before = xs.getLast?.or (some x) := by
        rw [List.getLast?_cons]
        cases xs.getLast? <;> rfl
      simp only [List.cons_append, Linked, List.head?_append, Option.or_assoc, ih, hlast, and_assoc]

/-- A list depends on the links of its own nodes only. -/
theorem Linked.congr (hsame : ∀ y ∈ xs, L'.prev y = L.prev y ∧ L'.next y = L.next y)
    (h : L.Linked before xs after) : L'.Linked before xs after := by
  induction xs generalizing before with
  | nil => trivial
  | cons x xs ih =>
      obtain ⟨hprev, hnext, hxs⟩ := h
      obtain ⟨hp, hn⟩ := hsame x List.mem_cons_self
      exact ⟨hp.trans hprev, hn.trans hnext, ih (fun y hy => hsame y (List.mem_cons_of_mem x hy)) hxs⟩

/-- The next node behind a node of the list. -/
theorem Linked.next_split (h : L.Linked before (xs ++ x :: ys) after) : L.next x = ys.head?.or after :=
  (linked_append.mp h).2.2.1

variable [DecidableEq α] {p : Option α} {q : α} {v : Option α}

/-! ## Writes -/

/-- `p->next = v`, if there is a `p`. -/
def setNext (L : Links α) : Option α → Option α → Links α
  | none, _   => L
  | some p, v => { L with next := Function.update L.next p v }

/-- `p->prev = v`, if there is a `p`. -/
def setPrev (L : Links α) : Option α → Option α → Links α
  | none, _   => L
  | some p, v => { L with prev := Function.update L.prev p v }

/-- `p->child = v` -/
def setChild (L : Links α) (p : α) (v : Option α) : Links α := { L with child := Function.update L.child p v }

@[simp] theorem setNext_prev : (L.setNext p v).prev = L.prev := by cases p <;> rfl

@[simp] theorem setNext_child : (L.setNext p v).child = L.child := by cases p <;> rfl

@[simp] theorem setPrev_next : (L.setPrev p v).next = L.next := by cases p <;> rfl

@[simp] theorem setPrev_child : (L.setPrev p v).child = L.child := by cases p <;> rfl

@[simp] theorem setChild_next : (L.setChild q v).next = L.next := rfl

@[simp] theorem setChild_prev : (L.setChild q v).prev = L.prev := rfl

theorem setNext_next_of_ne (h : p ≠ some x) : (L.setNext p v).next x = L.next x := by
  cases p with
  | none => rfl
  | some p => exact Function.update_of_ne (fun heq => h (congrArg some heq.symm)) v L.next

theorem setPrev_prev_of_ne (h : p ≠ some x) : (L.setPrev p v).prev x = L.prev x := by
  cases p with
  | none => rfl
  | some p => exact Function.update_of_ne (fun heq => h (congrArg some heq.symm)) v L.prev

@[simp] theorem setNext_next_self : (L.setNext (some x) v).next x = v := by
  show Function.update L.next x v x = v
  rw [Function.update_self]

@[simp] theorem setPrev_prev_self : (L.setPrev (some x) v).prev x = v := by
  show Function.update L.prev x v x = v
  rw [Function.update_self]

theorem Linked.setNext_of_notMem (hp : ∀ x ∈ xs, p ≠ some x) (h : L.Linked before xs after) :
    (L.setNext p v).Linked before xs after :=
  h.congr (fun x hx => ⟨congrFun setNext_prev x, setNext_next_of_ne (hp x hx)⟩)

theorem Linked.setPrev_of_notMem (hp : ∀ x ∈ xs, p ≠ some x) (h : L.Linked before xs after) :
    (L.setPrev p v).Linked before xs after :=
  h.congr (fun x hx => ⟨setPrev_prev_of_ne (hp x hx), congrFun setPrev_next x⟩)

theorem Linked.setChild (h : L.Linked before xs after) : (L.setChild q v).Linked before xs after := by
  refine Linked.congr (fun y hy => ?_) h
  exact ⟨rfl, rfl⟩

/-- The last node is led on to `v`. -/
theorem Linked.setNext_last (hnodup : xs.Nodup) (h : L.Linked before xs after) :
    (L.setNext xs.getLast? v).Linked before xs v := by
  rcases List.eq_nil_or_concat xs with rfl | ⟨ys, x, rfl⟩
  · trivial
  · rw [List.concat_eq_append] at *
    have hx : x ∉ ys := fun hmem => (List.nodup_append.mp hnodup).2.2 x hmem x List.mem_cons_self rfl
    obtain ⟨hys, hprev, -⟩ := linked_append.mp h
    rw [List.getLast?_concat]
    refine linked_append.mpr ⟨hys.setNext_of_notMem (fun y hy heq => hx ?_), ?_⟩
    · rw [Option.some.inj heq]
      exact hy
    · exact linked_singleton.mpr ⟨(congrFun setNext_prev x).trans hprev, setNext_next_self⟩

/-- The first node is led back to `v`. -/
theorem Linked.setPrev_head (hnodup : xs.Nodup) (h : L.Linked before xs after) :
    (L.setPrev xs.head? v).Linked v xs after := by
  cases xs with
  | nil => trivial
  | cons x xs =>
      obtain ⟨-, hnext, hxs⟩ := h
      have hx : x ∉ xs := (List.nodup_cons.mp hnodup).1
      refine ⟨setPrev_prev_self, (congrFun setPrev_next x).trans hnext,
        hxs.setPrev_of_notMem (fun y hy heq => hx ?_)⟩
      rw [Option.some.inj heq]
      exact hy

/-- Two lists become one. -/
theorem Linked.join (hnodup : (xs ++ ys).Nodup) (hxs : L.Linked before xs after')
    (hys : L.Linked before' ys after) :
    ((L.setNext xs.getLast? (ys.head?.or after)).setPrev ys.head? (xs.getLast?.or before)).Linked
      before (xs ++ ys) after := by
  obtain ⟨hndx, hndy, hdisj⟩ := List.nodup_append.mp hnodup
  refine linked_append.mpr ⟨?_, ?_⟩
  · refine (hxs.setNext_last hndx).setPrev_of_notMem (fun x hx heq => ?_)
    exact hdisj x hx x (List.mem_of_mem_head? heq) rfl
  · refine Linked.setPrev_head hndy (hys.setNext_of_notMem (fun y hy heq => ?_))
    exact hdisj y (List.mem_of_mem_getLast? heq) y hy rfl

end Links
end Siblings
