import AstraeaGateway.Checked
import AstraeaGateway.Data
import Mathlib.Data.List.TakeWhile

/-!
# `CJson.Buffer` — the text that `cJSON_Parse` reads

A `parse_buffer` is its content, which ends with the terminating NUL, and an offset. `buffer_at_offset` is
not checked by the source, so each read through it is a `read` here, which fails outside the content.
`can_access_at_index` followed by a comparison is `content[offset]? = some _`.
-/

namespace AstraeaGateway
namespace CJson

open Checked

/-- How a parse fails: the text is refused, with the offset where the buffer stands; the source would access
    memory outside the text or an allocation; or the bound of a loop of the model was too small. -/
inductive Failure
  | refused (offset : Nat)
  | overrun
  | fuel
deriving DecidableEq, Repr

abbrev Parsed (α : Type) := Except Failure α

/-- `buffer_at_offset(buffer)[0]` at this offset. -/
def read (content : Str) (offset : Nat) : Parsed UInt8 :=
  match content[offset]? with
  | some b => .ok b
  | none   => .error .overrun

/-- `can_read(buffer, size) && strncmp(buffer_at_offset(buffer), token, size) == 0` -/
def startsWith (content : Str) (offset : Nat) (token : Str) : Bool :=
  decide (offset + token.length ≤ content.length) && decide ((content.drop offset).take token.length = token)

/-- `buffer_skip_whitespace`. The NUL is skipped as well, and stepped back to. -/
def skipWhitespace (content : Str) (offset : Nat) : Nat :=
  let offset := offset + ((content.drop offset).takeWhile (· ≤ 32)).length
  if offset = content.length then offset - 1 else offset

/-- `skip_utf8_bom`, at the start of the buffer. -/
def skipUtf8Bom (content : Str) : Nat :=
  if 4 < content.length ∧ content.take 3 = [0xEF, 0xBB, 0xBF] then 3 else 0

/-! ## What stands at an offset -/

variable {content rest : Str} {offset : Nat} {b : UInt8}

theorem getElem?_of_drop (h : content.drop offset = b :: rest) : content[offset]? = some b := by
  rw [← List.head?_drop, h, List.head?_cons]

theorem drop_succ_of_drop (h : content.drop offset = b :: rest) : content.drop (offset + 1) = rest := by
  rw [← List.drop_drop, h, List.drop_one, List.tail_cons]

theorem drop_add_of_drop {text : Str} (h : content.drop offset = text ++ rest) :
    content.drop (offset + text.length) = rest := by
  rw [← List.drop_drop, h, List.drop_left]

/-- What stands at the offset can be read. -/
theorem read_of_drop (h : content.drop offset = b :: rest) : read content offset = .ok b := by
  rw [read, getElem?_of_drop h]

/-- Inside the buffer every access is one. -/
theorem read_of_lt (h : offset < content.length) : ∃ b, read content offset = .ok b ∧ content[offset]? = some b := by
  refine ⟨content[offset], ?_, List.getElem?_eq_getElem h⟩
  rw [read, List.getElem?_eq_getElem h]

/-- A read inside the content gives what stands there. -/
theorem read_sat {E : Failure → Prop} (h : offset < content.length) :
    Sat (read content offset) (fun b => content[offset]? = some b) E := by
  obtain ⟨b, hread, hb⟩ := read_of_lt h
  rw [hread]
  exact hb

/-! ## Blanks -/

/-- The skipping stops in the buffer, at its last byte if need be. -/
theorem skipWhitespace_lt (h : offset < content.length) : skipWhitespace content offset < content.length := by
  have hle := (List.takeWhile_sublist (l := content.drop offset) (· ≤ 32)).length_le
  rw [List.length_drop] at hle
  unfold skipWhitespace
  dsimp only
  split
  · omega
  · omega

theorem le_skipWhitespace (h : offset < content.length) : offset ≤ skipWhitespace content offset := by
  unfold skipWhitespace
  dsimp only
  split
  · omega
  · omega

/-- **Blanks are skipped** up to the first character that is none. -/
theorem skipWhitespace_of_drop {blanks : Str} (h : content.drop offset = blanks ++ b :: rest)
    (hblanks : ∀ x ∈ blanks, x ≤ 32) (hb : 32 < b) :
    skipWhitespace content offset = offset + blanks.length := by
  have htake : (content.drop offset).takeWhile (· ≤ 32) = blanks := by
    rw [h, List.takeWhile_append_of_pos (fun x hx => decide_eq_true (hblanks x hx))]
    have hstop : ¬ b ≤ 32 := UInt8.not_le.mpr hb
    simp [hstop]
  have hlt : offset + blanks.length < content.length := by
    have hlen := congrArg List.length h
    rw [List.length_drop, List.length_append, List.length_cons] at hlen
    omega
  unfold skipWhitespace
  rw [htake]
  dsimp only
  rw [if_neg (Nat.ne_of_lt hlt)]

/-- At the end of the text the NUL is skipped too, and stepped back to. -/
theorem skipWhitespace_end {blanks : Str} (h : content.drop offset = blanks ++ [0])
    (hblanks : ∀ x ∈ blanks, x ≤ 32) : skipWhitespace content offset = offset + blanks.length := by
  have htake : (content.drop offset).takeWhile (· ≤ 32) = blanks ++ [0] := by
    rw [h]
    refine List.takeWhile_eq_self_iff.mpr (fun x hx => ?_)
    rcases List.mem_append.mp hx with hx | hx
    · exact decide_eq_true (hblanks x hx)
    · obtain rfl := List.mem_singleton.mp hx
      rfl
  have hlen := congrArg List.length h
  rw [List.length_drop, List.length_append, List.length_singleton] at hlen
  unfold skipWhitespace
  rw [htake, List.length_append, List.length_singleton]
  dsimp only
  rw [if_pos (by omega)]
  omega

end CJson
end AstraeaGateway
