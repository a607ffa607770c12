import AstraeaGateway.Data
import AstraeaGateway.Json
import Mathlib.Algebra.Ring.Nat

/-!
# `Http.CJson` — what `cJSON_PrintUnformatted` prints

The printing half of `cJSON.c`, for an object whose items are strings. Every write is preceded by a call of
`ensure`, which keeps the buffer below `INT_MAX` bytes; `none` is a failed print. Allocation succeeds here.
`printUnformatted_eq` says what is printed: the object as `Json.objectText` has it, each string escaped byte
by byte.
-/

namespace AstraeaGateway
namespace CJson

open Json

/-- `printbuffer`: what is printed so far (up to `offset`), and the size of the buffer. -/
structure PrintBuffer where
  text   : Str
  length : Nat
deriving DecidableEq, Repr

/-- `INT_MAX` -/
def intMax : Nat := 2147483647

/-- `ensure` -/
def ensure (p : PrintBuffer) (needed : Nat) : Option PrintBuffer :=
  if p.length > 0 ∧ p.text.length ≥ p.length then none
  else if needed > intMax then none
  else
    let needed := needed + (p.text.length + 1)
    if needed ≤ p.length then some p
    else if needed > intMax / 2 then
      if needed ≤ intMax then some { p with length := intMax } else none
    else some { p with length := needed * 2 }

def PrintBuffer.write (text : Str) (p : PrintBuffer) : PrintBuffer := { p with text := p.text ++ text }

/-- The additional characters that one character of a string needs. -/
def escapeCharacters (b : UInt8) : Nat :=
  if b = quote ∨ b = backslash ∨ b = 8 ∨ b = 12 ∨ b = 10 ∨ b = 13 ∨ b = 9 then 1
  else if b < 32 then 5
  else 0

/-- One iteration of the copying loop of `print_string_ptr`. -/
def escapeByte (b : UInt8) : Str :=
  if b > 31 ∧ b ≠ quote ∧ b ≠ backslash then [b]
  else if b = backslash then [backslash, backslash]
  else if b = quote then [backslash, quote]
  else if b = 8 then [backslash, 98]
  else if b = 12 then [backslash, 102]
  else if b = 10 then [backslash, 110]
  else if b = 13 then [backslash, 114]
  else if b = 9 then [backslash, 116]
  else [backslash, unicode, 48, 48, Hex.lower (b.toNat / 16), Hex.lower (b.toNat % 16)]

/-- `output_length` -/
def outputLength (input : Str) : Nat := input.length + (input.map escapeCharacters).sum

/-- The characters that `print_string_ptr` writes. The closing quote stands where the counted length puts it,
    not where the copying loop ends. -/
def stringText (input : Str) : Str :=
  let copied := if (input.map escapeCharacters).sum = 0 then input else input.flatMap escapeByte
  (quote :: copied).take (outputLength input + 1) ++ [quote]

def printStringPtr (input : Str) (p : PrintBuffer) : Option PrintBuffer :=
  (ensure p (outputLength input + 3)).map (PrintBuffer.write (stringText input))

/-- One iteration of the loop of `print_object`, with whether there is a next item. -/
def printItem (item : Str × Str) (next : Bool) (p : PrintBuffer) : Option PrintBuffer := do
  let p ← printStringPtr item.1 p
  let p ← (ensure p 1).map (PrintBuffer.write [colon])
  let p ← printStringPtr item.2 p
  let p ← ensure p ((if next then 1 else 0) + 1)
  return if next then p.write [comma] else p

def printItems : List (Str × Str) → PrintBuffer → Option PrintBuffer
  | [], p            => some p
  | item :: items, p => (printItem item (!items.isEmpty) p).bind (printItems items)

/-- `print_object` -/
def printObject (items : List (Str × Str)) (p : PrintBuffer) : Option PrintBuffer := do
  let p ← (ensure p 2).map (PrintBuffer.write [openBrace])
  let p ← printItems items p
  (ensure p 2).map (PrintBuffer.write [closeBrace])

/-- `cJSON_PrintUnformatted`, with the buffer of 256 bytes that `print` starts from. -/
def printUnformatted (items : List (Str × Str)) : Option Str :=
  (printObject items ⟨[], 256⟩).map PrintBuffer.text

/-! ## Strings -/

/-- A string without its quotes. -/
def escaped (input : Str) : Str := input.flatMap escapeByte

/-- **The three ways to print a character**: as it is, with a short escape, or as a code point. -/
theorem escapeByte_cases (b : UInt8) :
    (escapeByte b = [b] ∧ escapeCharacters b = 0 ∧ 32 ≤ b ∧ b ≠ quote ∧ b ≠ backslash) ∨
    (∃ e, escapeByte b = [backslash, e] ∧ escapeCharacters b = 1 ∧ shortEscape e = some b) ∨
    (escapeByte b = [backslash, unicode, 48, 48, Hex.lower (b.toNat / 16), Hex.lower (b.toNat % 16)] ∧
      escapeCharacters b = 5 ∧ b < 32) := by
  by_cases hshort : b = quote ∨ b = backslash ∨ b = 8 ∨ b = 12 ∨ b = 10 ∨ b = 13 ∨ b = 9
  · refine Or.inr (Or.inl ?_)
    rcases hshort with rfl | rfl | rfl | rfl | rfl | rfl | rfl <;> exact ⟨_, rfl, rfl, rfl⟩
  · have hcount : escapeCharacters b = if b < 32 then 5 else 0 := if_neg hshort
    simp only [not_or] at hshort
    obtain ⟨hquote, hback, h8, h12, h10, h13, h9⟩ := hshort
    by_cases hcontrol : b < 32
    · have hnot : ¬ (b > 31 ∧ b ≠ quote ∧ b ≠ backslash) :=
        fun h => absurd (UInt8.lt_iff_toNat_lt.mp h.1) (by
          have := UInt8.lt_iff_toNat_lt.mp hcontrol
          show ¬ 31 < b.toNat
          exact Nat.not_lt.mpr (Nat.le_of_lt_succ this))
      refine Or.inr (Or.inr ⟨?_, hcount.trans (if_pos hcontrol), hcontrol⟩)
      rw [escapeByte, if_neg hnot, if_neg hback, if_neg hquote, if_neg h8, if_neg h12, if_neg h10, if_neg h13,
        if_neg h9]
    · have hle : 32 ≤ b := UInt8.not_lt.mp hcontrol
      refine Or.inl ⟨if_pos ⟨?_, hquote, hback⟩, hcount.trans (if_neg hcontrol), hle, hquote, hback⟩
      exact UInt8.lt_of_lt_of_le (by decide) hle

/-- The count of a character is what copying it adds. -/
theorem length_escapeByte (b : UInt8) : (escapeByte b).length = 1 + escapeCharacters b := by
  rcases escapeByte_cases b with ⟨htext, hcount, -⟩ | ⟨e, htext, hcount, -⟩ | ⟨htext, hcount, -⟩
  · rw [htext, hcount]
    rfl
  · rw [htext, hcount]
    rfl
  · rw [htext, hcount]
    rfl

theorem length_escaped (input : Str) : (escaped input).length = outputLength input := by
  induction input with
  | nil => rfl
  | cons b input ih =>
      unfold escaped outputLength at *
      rw [List.flatMap_cons, List.length_append, ih, length_escapeByte, List.map_cons, List.sum_cons,
        List.length_cons]
      omega

/-- A string without a counted character is copied as it is. -/
theorem escaped_of_zero {input : Str} (h : (input.map escapeCharacters).sum = 0) : escaped input = input := by
  induction input with
  | nil => rfl
  | cons b input ih =>
      rw [List.map_cons, List.sum_cons, Nat.add_eq_zero_iff] at h
      have hb : escapeByte b = [b] := by
        rcases escapeByte_cases b with ⟨htext, -⟩ | ⟨e, -, hcount, -⟩ | ⟨-, hcount, -⟩
        · exact htext
        · omega
        · omega
      unfold escaped at ih ⊢
      rw [List.flatMap_cons, hb, ih h.2]
      rfl

/-- **The closing quote stands right behind the string.** -/
theorem stringText_eq (input : Str) : stringText input = quoted (escaped input) := by
  have hcopied : (if (input.map escapeCharacters).sum = 0 then input else input.flatMap escapeByte)
      = escaped input := by
    split
    case isTrue hzero => exact (escaped_of_zero hzero).symm
    case isFalse => rfl
  rw [stringText, hcopied, List.take_of_length_le]
  · rfl
  · exact Nat.le_of_eq (by rw [List.length_cons, length_escaped])

theorem unicodeEscape_of_control {b : UInt8} (h : b < 32) :
    unicodeEscape 48 48 (Hex.lower (b.toNat / 16)) (Hex.lower (b.toNat % 16)) = some [b] := by
  have hlt := UInt8.lt_iff_toNat_lt.mp h
  have hlt : b.toNat < 32 := hlt
  have hzero : Hex.value 48 = some 0 := rfl
  have hsum : 4096 * 0 + 256 * 0 + 16 * (b.toNat / 16) + b.toNat % 16 = b.toNat := by omega
  have hascii : b.toNat < 0x80 := by omega
  rw [unicodeEscape, hzero, Hex.value_lower _ (by omega), Hex.value_lower _ (by omega)]
  simp only [Option.bind_eq_bind, Option.bind_some, hsum, utf8, if_pos hascii, UInt8.ofNat_toNat]

/-- A character with a short escape needs one. -/
theorem mustEscape_of_count {b : UInt8} (h : escapeCharacters b = 1) : MustEscape b := by
  unfold escapeCharacters at h
  split at h
  case isTrue hshort => rcases hshort with rfl | rfl | rfl | rfl | rfl | rfl | rfl <;> decide
  case isFalse => split at h <;> cases h

/-- **Each string is encoded** as JSON has it. -/
theorem encoded_escaped (input : Str) : Encoded input (escaped input) := by
  induction input with
  | nil => exact Encoded.nil
  | cons b input ih =>
      rw [escaped, List.flatMap_cons]
      rcases escapeByte_cases b with
        ⟨htext, -, hle, hquote, hback⟩ | ⟨e, htext, hcount, he⟩ | ⟨htext, -, hcontrol⟩
      · have hplain : ¬ MustEscape b := by
          simp only [MustEscape, not_or]
          exact ⟨UInt8.not_lt.mpr hle, hquote, hback⟩
        rw [htext]
        exact Encoded.plain hplain ih
      · rw [htext]
        exact Encoded.short (mustEscape_of_count hcount) he ih
      · rw [htext]
        exact Encoded.unicode (Or.inl hcontrol) (unicodeEscape_of_control hcontrol) ih

theorem escaped_escaped (input : Str) : Escaped input (escaped input) := (encoded_escaped input).escaped

/-! ## The buffer -/

variable {p p' : PrintBuffer} {needed : Nat}

/-- A buffer that got `text` on top, and stays below `INT_MAX`. -/
structure Grown (p : PrintBuffer) (text : Str) (p' : PrintBuffer) : Prop where
  text  : p'.text = p.text ++ text
  bound : p.length ≤ intMax → p'.length ≤ intMax

theorem Grown.trans {p₁ p₂ p₃ : PrintBuffer} {text text' : Str} (h : Grown p₁ text p₂)
    (h' : Grown p₂ text' p₃) : Grown p₁ (text ++ text') p₃ where
  text := by rw [h'.text, h.text, List.append_assoc]
  bound hle := h'.bound (h.bound hle)

/-- `ensure` makes room, and prints nothing. -/
theorem ensure_spec (h : ensure p needed = some p') :
    Grown p [] p' ∧ (p.length ≤ intMax → p.text.length + needed + 1 ≤ intMax) := by
  unfold ensure at h
  split at h
  · cases h
  · split at h
    · cases h
    · dsimp only at h
      split at h
      case isTrue hfits =>
          obtain rfl := Option.some.inj h
          exact ⟨⟨(List.append_nil _).symm, id⟩, fun hle => by omega⟩
      case isFalse =>
          split at h
          case isTrue =>
              split at h
              case isTrue hle =>
                  obtain rfl := Option.some.inj h
                  exact ⟨⟨(List.append_nil _).symm, fun _ => Nat.le_refl _⟩, fun _ => by omega⟩
              case isFalse => cases h
          case isFalse hhalf =>
              obtain rfl := Option.some.inj h
              have hdouble : (needed + (p.text.length + 1)) * 2 ≤ intMax := by
                unfold intMax at hhalf ⊢
                omega
              exact ⟨⟨(List.append_nil _).symm, fun _ => hdouble⟩, fun _ => by omega⟩

theorem ensure_write {text : Str} (h : (ensure p needed).map (PrintBuffer.write text) = some p') :
    Grown p text p' := by
  obtain ⟨p₁, hensure, rfl⟩ := Option.map_eq_some_iff.mp h
  obtain ⟨hgrown, -⟩ := ensure_spec hensure
  exact ⟨by rw [PrintBuffer.write, hgrown.text, List.append_nil], hgrown.bound⟩

theorem printStringPtr_spec {input : Str} (h : printStringPtr input p = some p') :
    Grown p (quoted (escaped input)) p' := by
  rw [← stringText_eq]
  exact ensure_write h

/-- **One item** is printed as a member, with a comma if there is a next one. -/
theorem printItem_spec {item : Str × Str} {next : Bool} (h : printItem item next p = some p') :
    Grown p (member escaped item ++ if next then [comma] else []) p' := by
  unfold printItem at h
  obtain ⟨p₁, hkey, h⟩ := Option.bind_eq_some_iff.mp h
  obtain ⟨p₂, hcolon, h⟩ := Option.bind_eq_some_iff.mp h
  obtain ⟨p₃, hvalue, h⟩ := Option.bind_eq_some_iff.mp h
  obtain ⟨p₄, hroom, h⟩ := Option.bind_eq_some_iff.mp h
  have hmember : Grown p (member escaped item) p₃ := by
    have := ((printStringPtr_spec hkey).trans (ensure_write hcolon)).trans (printStringPtr_spec hvalue)
    rwa [List.append_assoc] at this
  obtain ⟨hroom, -⟩ := ensure_spec hroom
  have hlast : Grown p₄ (if next then [comma] else []) p' := by
    obtain rfl := Option.some.inj h
    cases next with
    | true => exact ⟨rfl, id⟩
    | false => exact ⟨(List.append_nil _).symm, id⟩
  exact hmember.trans (hroom.trans hlast)

/-- The items of an object, between its braces. -/
def itemsText : List (Str × Str) → Str
  | []     => []
  | x :: l => member escaped x ++ l.flatMap (fun y => comma :: member escaped y)

theorem printItems_spec {items : List (Str × Str)} (h : printItems items p = some p') :
    Grown p (itemsText items) p' := by
  induction items generalizing p with
  | nil =>
      obtain rfl := Option.some.inj h
      exact ⟨(List.append_nil _).symm, id⟩
  | cons x items ih =>
      obtain ⟨p₁, hitem, hrest⟩ := Option.bind_eq_some_iff.mp h
      have hgrown := (printItem_spec hitem).trans (ih hrest)
      cases items with
      | nil => simpa [itemsText] using hgrown
      | cons y items => simpa [itemsText] using hgrown

theorem objectText_eq (items : List (Str × Str)) :
    objectText escaped items = openBrace :: (itemsText items ++ [closeBrace]) := by
  cases items with
  | nil => rfl
  | cons x l => rw [objectText, itemsText, List.append_assoc]

/-- **What is printed**, when printing does not fail: the object, in less than `INT_MAX` bytes. -/
theorem printUnformatted_eq {items : List (Str × Str)} {json : Str} (h : printUnformatted items = some json) :
    json = objectText escaped items ∧ json.length < intMax := by
  obtain ⟨p, hobject, rfl⟩ := Option.map_eq_some_iff.mp h
  unfold printObject at hobject
  obtain ⟨p₁, hopen, hobject⟩ := Option.bind_eq_some_iff.mp hobject
  obtain ⟨p₂, hitems, hclose⟩ := Option.bind_eq_some_iff.mp hobject
  have hbody := (ensure_write hopen).trans (printItems_spec hitems)
  have htext : p.text = objectText escaped items := by
    rw [(ensure_write hclose).text, hbody.text, objectText_eq]
    rfl
  -- the last call of `ensure` sees everything but the closing brace
  obtain ⟨p₃, hroom, -⟩ := Option.map_eq_some_iff.mp hclose
  have hroom := (ensure_spec hroom).2 (hbody.bound (by decide))
  have hlength := congrArg List.length (ensure_write hclose).text
  rw [List.length_append, List.length_singleton] at hlength
  exact ⟨htext, by omega⟩

end CJson
end AstraeaGateway
