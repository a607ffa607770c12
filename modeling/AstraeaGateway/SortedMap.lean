import Mathlib.Data.List.Basic
import Mathlib.Data.List.Nodup

/-!
# `SortedMap` — a map as the list of its entries in key order

What `std::map` keeps, over any linearly ordered keys: the entries in strictly increasing key order, which
the type carries as a field. `insert` leaves an entry that is already there. `ofEntries_perm`: a map built
from entries with distinct keys has exactly these.
-/

/-- A map with its entries in strictly increasing order of the keys. -/
structure SortedMap (κ υ : Type) [LT κ] where
  entries : List (κ × υ)
  sorted  : (entries.map Prod.fst).Pairwise (· < ·)

namespace SortedMap

variable {κ υ : Type} [LT κ] [DecidableLT κ]

/-- Insertion in key order, without overwriting. -/
def insertEntry (e : κ × υ) : List (κ × υ) → List (κ × υ)
  | []     => [e]
  | x :: l =>
      if e.1 < x.1 then e :: x :: l
      else if x.1 < e.1 then x :: insertEntry e l
      else x :: l

variable {e : κ × υ} {l : List (κ × υ)}

theorem key_mem_insertEntry {k : κ} (h : k ∈ (insertEntry e l).map Prod.fst) :
    k = e.1 ∨ k ∈ l.map Prod.fst := by
  induction l with
  | nil => exact Or.inl (List.mem_singleton.mp h)
  | cons x l ih =>
      rw [insertEntry] at h
      split at h
      case isTrue => exact List.mem_cons.mp h
      case isFalse =>
          split at h
          case isTrue =>
              rcases List.mem_cons.mp h with rfl | h
              · exact Or.inr List.mem_cons_self
              · exact (ih h).imp_right (List.mem_cons_of_mem x.1)
          case isFalse => exact Or.inr h

variable [LE κ] [Std.IsLinearOrder κ] [Std.LawfulOrderLT κ]

theorem sorted_insertEntry (h : (l.map Prod.fst).Pairwise (· < ·)) :
    ((insertEntry e l).map Prod.fst).Pairwise (· < ·) := by
  induction l with
  | nil => exact List.pairwise_singleton ..
  | cons x l ih =>
      obtain ⟨hx, hl⟩ := List.pairwise_cons.mp h
      rw [insertEntry]
      split
      case isTrue hlt =>
          refine List.pairwise_cons.mpr ⟨?_, h⟩
          intro k hk
          rcases List.mem_cons.mp hk with rfl | hk
          · exact hlt
          · exact Std.lt_trans hlt (hx k hk)
      case isFalse =>
          split
          case isTrue hlt =>
              refine List.pairwise_cons.mpr ⟨?_, ih hl⟩
              intro k hk
              rcases key_mem_insertEntry hk with rfl | hk
              · exact hlt
              · exact hx k hk
          case isFalse => exact h

/-- A new key is added. -/
theorem insertEntry_perm (h : e.1 ∉ l.map Prod.fst) : (insertEntry e l).Perm (e :: l) := by
  induction l with
  | nil => exact List.Perm.refl _
  | cons x l ih =>
      rw [List.map_cons, List.mem_cons, not_or] at h
      rw [insertEntry]
      split
      case isTrue => exact List.Perm.refl _
      case isFalse hge =>
          have hlt : x.1 < e.1 := by
            rcases Std.lt_trichotomy e.1 x.1 with hlt | heq | hlt
            · exact absurd hlt hge
            · exact absurd heq h.1
            · exact hlt
          rw [if_pos hlt]
          exact ((ih h.2).cons x).trans (List.Perm.swap e x l)

/-- The map without entries. -/
def empty : SortedMap κ υ := ⟨[], List.Pairwise.nil⟩

/-- `std::map::insert` -/
def insert (m : SortedMap κ υ) (e : κ × υ) : SortedMap κ υ :=
  ⟨insertEntry e m.entries, sorted_insertEntry m.sorted⟩

/-- The map of a list of entries, inserted one after another. -/
def ofEntries (l : List (κ × υ)) : SortedMap κ υ := l.foldl insert empty

omit [DecidableLT κ] [Std.IsLinearOrder κ] in
theorem keys_nodup (m : SortedMap κ υ) : (m.entries.map Prod.fst).Nodup :=
  List.Pairwise.imp (fun hlt => Std.ne_of_lt hlt) m.sorted

/-- Entries whose keys are distinct, and new to the map, are all added to it. -/
theorem foldl_insert_perm (m : SortedMap κ υ)
    (h : ((m.entries ++ l).map Prod.fst).Nodup) : (l.foldl insert m).entries.Perm (m.entries ++ l) := by
  induction l generalizing m with
  | nil => rw [List.append_nil]; exact List.Perm.refl _
  | cons e l ih =>
      have hfresh : e.1 ∉ m.entries.map Prod.fst := by
        rw [List.map_append, List.map_cons, List.nodup_middle, List.nodup_cons] at h
        exact fun hmem => h.1 (List.mem_append_left _ hmem)
      have hperm : ((m.insert e).entries ++ l).Perm (m.entries ++ e :: l) :=
        ((insertEntry_perm hfresh).append_right l).trans List.perm_middle.symm
      exact (ih (m.insert e) ((hperm.map Prod.fst).nodup_iff.mpr h)).trans hperm

/-- **A map built from entries with distinct keys has exactly these entries.** -/
theorem ofEntries_perm (h : (l.map Prod.fst).Nodup) : (ofEntries l).entries.Perm l := foldl_insert_perm empty h

end SortedMap
