import Mathlib.Data.List.Basic

/-!
# `Overlap` — a text with a separator, and where else the separator may stand in it

`u ++ sep ++ q` may be taken apart in another way if `sep` stands somewhere else in it. `shift_cases` says how
this can be: the second copy lies inside one of the parts, or it overlaps the first. `identified_iff` is the
exact condition on `u` and `q` for there to be no other way, and `append_inj` one on the first parts alone.
-/

namespace Overlap

variable {α : Type} {sep u q x y a : List α} {k : Nat}

/-- A copy of `sep` that begins `k` places behind another one overlaps it. -/
structure Overlaps (sep : List α) (k : Nat) : Prop where
  pos    : 0 < k
  lt     : k < sep.length
  border : sep.drop k <+: sep

/-- Behind the overlap, the second copy ends with the last `k` places of `sep`. -/
theorem Overlaps.append (h : Overlaps sep k) : sep.drop k ++ sep.drop (sep.length - k) = sep := by
  have hborder : sep.drop k = sep.take (sep.length - k) := by
    have htake := List.prefix_iff_eq_take.mp h.border
    rwa [List.length_drop] at htake
  rw [hborder, List.take_append_drop]

theorem Overlaps.shift (h : Overlaps sep k) (q : List α) :
    sep ++ (sep.drop (sep.length - k) ++ q) = sep.take k ++ (sep ++ q) := by
  calc sep ++ (sep.drop (sep.length - k) ++ q)
      = sep.take k ++ (sep.drop k ++ sep.drop (sep.length - k)) ++ q := by
        rw [← List.append_assoc (sep.take k), List.take_append_drop, List.append_assoc]
    _ = sep.take k ++ (sep ++ q) := by rw [h.append, List.append_assoc]

/-- **Where a second copy can begin**: behind the first one, or inside of it. -/
theorem shift_cases (ha : a ≠ []) (h : sep ++ y = a ++ (sep ++ q)) :
    (∃ b, a = sep ++ b ∧ y = b ++ (sep ++ q)) ∨
    (∃ k, Overlaps sep k ∧ a = sep.take k ∧ y = sep.drop (sep.length - k) ++ q) := by
  rcases List.append_eq_append_iff.mp h with ⟨b, ha', hy⟩ | ⟨b, hsep, hb⟩
  · exact Or.inl ⟨b, ha', hy⟩
  · -- `a` is what the second copy leaves of the first, and `b` is where they overlap
    by_cases hnil : b = []
    · subst hnil
      rw [List.append_nil] at hsep
      exact Or.inl ⟨[], by rw [List.append_nil, hsep], hb.symm⟩
    · have hlength : sep.length = a.length + b.length := by rw [hsep, List.length_append]
      have hdrop : sep.drop a.length = b := by rw [hsep, List.drop_left]
      have htake : sep.take a.length = a := by rw [hsep, List.take_left]
      have hborder : b <+: sep :=
        List.prefix_of_prefix_length_le ⟨y, hb.symm⟩ (List.prefix_append sep q) (by omega)
      have hoverlaps : Overlaps sep a.length :=
        ⟨List.length_pos_iff.mpr ha, by have := List.length_pos_iff.mpr hnil; omega, hdrop.symm ▸ hborder⟩
      refine Or.inr ⟨a.length, hoverlaps, htake.symm, ?_⟩
      have hrest := hoverlaps.append
      rw [hdrop] at hrest
      rw [← hrest, List.append_assoc] at hb
      exact (List.append_cancel_left hb).symm

/-! ## Parts that hide no separator -/

/-- Nothing in `u` can be taken for the beginning of the `sep` behind it. -/
structure ClearBefore (sep u : List α) : Prop where
  absent : ¬ sep <:+: u
  ending : ∀ k, Overlaps sep k → ¬ sep.take k <:+ u

/-- Nothing in `q` can be taken for the end of the `sep` in front of it. -/
structure ClearBehind (sep q : List α) : Prop where
  absent    : ¬ sep <:+: q
  beginning : ∀ k, Overlaps sep k → ¬ sep.drop (sep.length - k) <+: q

/-- For a separator that overlaps itself in one way only. -/
theorem clearBefore_iff {n : Nat} (h : ∀ k, Overlaps sep k ↔ k = n) :
    ClearBefore sep u ↔ ¬ sep <:+: u ∧ ¬ sep.take n <:+ u := by
  constructor
  · intro hclear
    exact ⟨hclear.absent, hclear.ending n ((h n).mpr rfl)⟩
  · rintro ⟨habsent, hending⟩
    refine ⟨habsent, ?_⟩
    intro k hk
    rw [(h k).mp hk]
    exact hending

theorem clearBehind_iff {n : Nat} (h : ∀ k, Overlaps sep k ↔ k = n) :
    ClearBehind sep q ↔ ¬ sep <:+: q ∧ ¬ sep.drop (sep.length - n) <+: q := by
  constructor
  · intro hclear
    exact ⟨hclear.absent, hclear.beginning n ((h n).mpr rfl)⟩
  · rintro ⟨habsent, hbeginning⟩
    refine ⟨habsent, ?_⟩
    intro k hk
    rw [(h k).mp hk]
    exact hbeginning

/-- A first part that is longer by `a` is not clear. -/
theorem not_clearBefore (ha : a ≠ []) (h : sep ++ y = a ++ (sep ++ q)) : ¬ ClearBefore sep (x ++ a) := by
  intro hclear
  rcases shift_cases ha h with ⟨b, rfl, -⟩ | ⟨k, hk, rfl, -⟩
  · exact hclear.absent ⟨x, b, by rw [List.append_assoc]⟩
  · exact hclear.ending k hk (List.suffix_append x _)

/-- And the second part of the other reading is not clear either. -/
theorem not_clearBehind (ha : a ≠ []) (h : sep ++ y = a ++ (sep ++ q)) : ¬ ClearBehind sep y := by
  intro hclear
  rcases shift_cases ha h with ⟨b, -, rfl⟩ | ⟨k, hk, -, rfl⟩
  · exact hclear.absent ⟨b, q, by rw [List.append_assoc]⟩
  · exact hclear.beginning k hk (List.prefix_append _ q)

/-- Two readings of one text: the same, or one with a longer first part. -/
theorem readings (h : x ++ (sep ++ y) = u ++ (sep ++ q)) : (x = u ∧ y = q) ∨
    (∃ a, a ≠ [] ∧ u = x ++ a ∧ sep ++ y = a ++ (sep ++ q)) ∨
    (∃ a, a ≠ [] ∧ x = u ++ a ∧ sep ++ q = a ++ (sep ++ y)) := by
  rcases List.append_eq_append_iff.mp h with ⟨a, hu, hy⟩ | ⟨a, hx, hq⟩
  · by_cases ha : a = []
    · subst ha
      exact Or.inl ⟨by rw [hu, List.append_nil], List.append_cancel_left hy⟩
    · exact Or.inr (Or.inl ⟨a, ha, hu, hy⟩)
  · by_cases ha : a = []
    · subst ha
      exact Or.inl ⟨by rw [hx, List.append_nil], (List.append_cancel_left hq).symm⟩
    · exact Or.inr (Or.inr ⟨a, ha, hx, hq⟩)

/-- **Clear first parts are enough**, whatever stands behind the separators. -/
theorem append_inj (hx : ClearBefore sep x) (hu : ClearBefore sep u)
    (h : x ++ (sep ++ y) = u ++ (sep ++ q)) : x = u ∧ y = q := by
  rcases readings h with hsame | ⟨a, ha, rfl, hy⟩ | ⟨a, ha, rfl, hq⟩
  · exact hsame
  · exact absurd hu (not_clearBefore ha hy)
  · exact absurd hx (not_clearBefore ha hq)

/-- There is only one way to take the text apart. -/
def Identified (sep u q : List α) : Prop := ∀ x y, x ++ (sep ++ y) = u ++ (sep ++ q) → x = u ∧ y = q

theorem Overlaps.take_ne_nil (h : Overlaps sep k) : sep.take k ≠ [] := by
  have hlength : (sep.take k).length = k := List.length_take_of_le (Nat.le_of_lt h.lt)
  rintro hnil
  rw [hnil] at hlength
  exact Nat.ne_of_lt h.pos hlength

/-- A reading whose first part is longer is another one. -/
theorem Identified.eq_nil_of_longer (h : Identified sep u q)
    (htext : (u ++ a) ++ (sep ++ y) = u ++ (sep ++ q)) : a = [] :=
  List.append_right_eq_self.mp (h (u ++ a) y htext).1

/-- So is one whose first part is shorter. -/
theorem Identified.eq_nil_of_shorter (h : Identified sep (x ++ a) q)
    (htext : x ++ (sep ++ y) = (x ++ a) ++ (sep ++ q)) : a = [] :=
  List.self_eq_append_right.mp (h x y htext).1

/-- **There is only one way exactly if both parts are clear.** -/
theorem identified_iff (hsep : sep ≠ []) : Identified sep u q ↔ ClearBefore sep u ∧ ClearBehind sep q := by
  constructor
  · intro h
    refine ⟨⟨?_, ?_⟩, ⟨?_, ?_⟩⟩
    · -- `u` contains the separator: cut there
      rintro ⟨x, b, rfl⟩
      rw [List.append_assoc] at h
      have hnil : sep ++ b = [] := h.eq_nil_of_shorter (y := b ++ (sep ++ q)) (by
        simp only [List.append_assoc])
      exact hsep (List.append_eq_nil_iff.mp hnil).1
    · -- `u` ends with the beginning of a copy that overlaps the separator
      rintro k hk ⟨x, rfl⟩
      have hnil : sep.take k = [] := h.eq_nil_of_shorter (y := sep.drop (sep.length - k) ++ q) (by
        rw [hk.shift, List.append_assoc])
      exact hk.take_ne_nil hnil
    · -- `q` contains the separator
      rintro ⟨b, y, rfl⟩
      have hnil : sep ++ b = [] := h.eq_nil_of_longer (y := y) (by simp only [List.append_assoc])
      exact hsep (List.append_eq_nil_iff.mp hnil).1
    · -- `q` begins with the end of a copy that overlaps the separator
      rintro k hk ⟨y, rfl⟩
      have hnil : sep.take k = [] := h.eq_nil_of_longer (y := y) (by rw [hk.shift, List.append_assoc])
      exact hk.take_ne_nil hnil
  · rintro ⟨hu, hq⟩ x y h
    rcases readings h with hsame | ⟨a, ha, rfl, hy⟩ | ⟨a, ha, rfl, hq'⟩
    · exact hsame
    · exact absurd hu (not_clearBefore ha hy)
    · exact absurd hq (not_clearBehind ha hq')

end Overlap
