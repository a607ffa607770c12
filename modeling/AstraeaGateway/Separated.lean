import Mathlib.Data.List.Basic

/-!
# `Separated` — text in pieces between separators

`List.splitOn` takes a text apart at every separator. Here are the two other ways in which a format is read:
`cut` at the first separator only, and `lines` of a text that ends each line with one. Both undo the writer
of the format as long as no separator occurs inside a piece (`cut_append`, `lines_flatMap`), as splitting does
(`splitOn_append_flatMap`).
-/

namespace Separated

variable {α : Type} [DecidableEq α] {sep : α}

/-- What stands before the first separator, and what stands behind it. -/
def cut (sep : α) : List α → Option (List α × List α)
  | []     => none
  | a :: l => if a = sep then some ([], l) else (cut sep l).map (fun x => (a :: x.1, x.2))

theorem cut_append {pre : List α} (h : sep ∉ pre) (post : List α) :
    cut sep (pre ++ sep :: post) = some (pre, post) := by
  induction pre with
  | nil => exact if_pos rfl
  | cons a pre ih =>
      rw [List.mem_cons, not_or] at h
      rw [List.cons_append, cut, if_neg (Ne.symm h.1), ih h.2]
      rfl

/-- **Splitting undoes joining**, here with a separator in front of each piece but the first. -/
theorem splitOn_append_flatMap {l : List α} {ls : List (List α)} (hl : sep ∉ l) (hls : ∀ l ∈ ls, sep ∉ l) :
    (l ++ ls.flatMap (fun l => sep :: l)).splitOn sep = l :: ls := by
  induction ls generalizing l with
  | nil => rw [List.flatMap_nil, List.append_nil, List.splitOn_eq_singleton hl]
  | cons l' ls ih =>
      rw [List.flatMap_cons, List.cons_append, List.splitOn_append_cons_self_of_not_mem hl,
        ih (hls l' List.mem_cons_self) (fun x hx => hls x (List.mem_cons_of_mem l' hx))]

/-- The lines of a text. The last line may lack its separator. -/
def lines (sep : α) (text : List α) : List (List α) :=
  let pieces := text.splitOn sep
  if pieces.getLast? = some [] then pieces.dropLast else pieces

theorem splitOn_flatMap {ls : List (List α)} (h : ∀ l ∈ ls, sep ∉ l) :
    (ls.flatMap (fun l => l ++ [sep])).splitOn sep = ls ++ [[]] := by
  induction ls with
  | nil => exact List.splitOn_nil sep
  | cons l ls ih =>
      have hl : sep ∉ l := h l List.mem_cons_self
      rw [List.flatMap_cons, List.append_assoc, List.singleton_append,
        List.splitOn_append_cons_self_of_not_mem hl, ih (fun x hx => h x (List.mem_cons_of_mem l hx)),
        List.cons_append]

/-- **Reading lines undoes writing them.** -/
theorem lines_flatMap {ls : List (List α)} (h : ∀ l ∈ ls, sep ∉ l) :
    lines sep (ls.flatMap (fun l => l ++ [sep])) = ls := by
  unfold lines
  rw [splitOn_flatMap h]
  simp

/-- Pieces that can each be read can be read together. -/
theorem mapM_map_eq_some {β γ δ : Type} {read : γ → Option δ} {write : β → γ} {value : β → δ} {bs : List β}
    (h : ∀ b ∈ bs, read (write b) = some (value b)) : (bs.map write).mapM read = some (bs.map value) := by
  induction bs with
  | nil => rfl
  | cons b bs ih =>
      rw [List.map_cons, List.mapM_cons, h b List.mem_cons_self,
        ih (fun x hx => h x (List.mem_cons_of_mem b hx))]
      rfl

end Separated
