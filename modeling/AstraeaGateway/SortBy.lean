import Mathlib.Data.List.Nodup

/-!
# `SortBy` — sorting a list by a key

`sortBy key l` has the elements of `l` in the order of their keys. Where the keys are strictly increasing in
`l`, every arrangement of its elements sorts to `l` (`sortBy_eq_of_perm`), so that the order in which they
come in does not matter.
-/

namespace SortBy

variable {α β κ : Type} [LE κ] [DecidableLE κ]

def sortBy (key : α → κ) (l : List α) : List α := l.mergeSort (fun a b => decide (key a ≤ key b))

variable {key : α → κ} {l l' : List α}

theorem sortBy_perm (key : α → κ) (l : List α) : (sortBy key l).Perm l := List.mergeSort_perm l _

/-- Sorting records by what they were made from. -/
theorem sortBy_map (key : β → κ) (f : α → β) (l : List α) :
    sortBy key (l.map f) = (sortBy (fun a => key (f a)) l).map f :=
  (List.map_mergeSort (f := f) (l := l) (r := fun a b => decide (key (f a) ≤ key (f b)))
    (fun _ _ _ _ => rfl)).symm

variable [Std.IsLinearOrder κ]

theorem pairwise_sortBy (key : α → κ) (l : List α) : (sortBy key l).Pairwise (fun a b => key a ≤ key b) := by
  have h : (sortBy key l).Pairwise (fun a b => decide (key a ≤ key b) = true) := by
    refine List.pairwise_mergeSort ?_ ?_ l
    · intro a b c hab hbc
      exact decide_eq_true (Std.le_trans (of_decide_eq_true hab) (of_decide_eq_true hbc))
    · intro a b
      simpa using Std.le_total (a := key a) (b := key b)
  exact h.imp (fun hab => of_decide_eq_true hab)

variable [LT κ] [Std.LawfulOrderLT κ]

/-- **All arrangements of a list with strictly increasing keys sort to it.** -/
theorem sortBy_eq_of_perm (hlt : l.Pairwise (fun a b => key a < key b)) (hperm : l'.Perm l) :
    sortBy key l' = l := by
  have hle : l.Pairwise (fun a b => key a ≤ key b) := hlt.imp (fun hab => Std.le_of_lt hab)
  have hkeys : (l.map key).Nodup := List.pairwise_map.mpr (hlt.imp (fun hab => Std.ne_of_lt hab))
  have hsorted : (sortBy key l').Perm l := (sortBy_perm key l').trans hperm
  refine List.Perm.eq_of_pairwise ?_ (pairwise_sortBy key l') hle hsorted
  intro a b ha hb hab hba
  exact List.inj_on_of_nodup_map hkeys (hsorted.mem_iff.mp ha) hb (Std.le_antisymm hab hba)

end SortBy
