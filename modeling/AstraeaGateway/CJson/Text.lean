import AstraeaGateway.CJson.Parse
import AstraeaGateway.CJson.StringText

/-!
# `CJson.Text` — the texts of an item

`Text strtod item t`: `t` is a JSON text of the item, with any blanks, any escapes and any numerals. A text
starts with no blank, and holds no NUL.
-/

namespace AstraeaGateway
namespace CJson

open Checked Json Http

/-! ## The grammar -/

/-- What the parser skips; a NUL would end the text. -/
def Blank (t : Str) : Prop := ∀ b ∈ t, b ≤ 32 ∧ b ≠ 0

theorem blank_nil : Blank [] := nofun

/-- A value with its text, and the blanks around it. -/
structure Element (α : Type) where
  value  : α
  before : Str
  text   : Str
  after  : Str

/-- A member of an object: its name, the text of the name with the blanks around it, and its value. -/
structure Member (α : Type) where
  name    : Str
  before  : Str
  text    : Str
  after   : Str
  element : Element α

variable {α ν : Type}

def Element.whole (e : Element α) : Str := e.before ++ (e.text ++ e.after)

def Member.whole (m : Member α) : Str := m.before ++ (quoted m.text ++ (m.after ++ colon :: m.element.whole))

/-- A name is a C string, like every `valuestring`. -/
def Member.child (m : Member α) : Str × α := (cStr m.name, m.element.value)

structure Element.Blanks (e : Element α) : Prop where
  before : Blank e.before
  after  : Blank e.after

structure Member.Blanks (m : Member α) : Prop where
  before  : Blank m.before
  after   : Blank m.after
  element : m.element.Blanks

def separated (texts : List Str) : Str := List.intercalate [comma] texts

/-- `t` is a text of the item, without blanks around it. -/
inductive Text (strtod : Str → Option (ν × Nat)) : Item ν → Str → Prop
  | null : Text strtod .null (lit "null")
  | false : Text strtod .false (lit "false")
  | true : Text strtod .true (lit "true")
  | number {x : ν} {t : Str} (h : Numeral strtod t x) : Text strtod (.number x) t
  | string {s t : Str} (h : Body s t) : Text strtod (.string (cStr s)) (quoted t)
  | emptyArray {blanks : Str} (h : Blank blanks) : Text strtod (.array []) (openBracket :: (blanks ++ [closeBracket]))
  | array {elements : List (Element (Item ν))} (hne : elements ≠ []) (hblanks : ∀ e ∈ elements, e.Blanks)
      (h : ∀ e ∈ elements, Text strtod e.value e.text) :
      Text strtod (.array (elements.map Element.value))
        (openBracket :: (separated (elements.map Element.whole) ++ [closeBracket]))
  | emptyObject {blanks : Str} (h : Blank blanks) : Text strtod (.object []) (openBrace :: (blanks ++ [closeBrace]))
  | object {members : List (Member (Item ν))} (hne : members ≠ []) (hblanks : ∀ m ∈ members, m.Blanks)
      (hname : ∀ m ∈ members, Body m.name m.text) (h : ∀ m ∈ members, Text strtod m.element.value m.element.text) :
      Text strtod (.object (members.map Member.child))
        (openBrace :: (separated (members.map Member.whole) ++ [closeBrace]))

/-! ## First characters -/

/-- The first character of a value: none that is skipped, that closes or that starts a byte order mark. -/
def Starts (t : Str) : Prop :=
  ∃ b rest, t = b :: rest ∧ 32 < b ∧ b < 0x80 ∧ b ≠ closeBracket ∧ b ≠ closeBrace

/-- A minus sign or a digit. -/
theorem starts_of_startsNumber {b : UInt8} (h : startsNumber b = true) :
    32 < b ∧ b < 0x80 ∧ b ≠ closeBracket ∧ b ≠ closeBrace := by
  have hlow : b = 45 ∨ 48 ≤ b ∧ b ≤ 57 := by
    simpa [startsNumber] using h
  simp only [UInt8.lt_iff_toNat_lt, UInt8.le_iff_toNat_le, ne_eq, ← UInt8.toNat_inj, UInt8.reduceToNat,
    closeBracket, closeBrace] at hlow ⊢
  omega

/-- **A text starts with its value**: the parser skips nothing in front of it, and takes it for no end of a
    list. -/
theorem Text.starts {strtod : Str → Option (ν × Nat)} {item : Item ν} {t : Str} (h : Text strtod item t) :
    Starts t := by
  cases h with
  | number h =>
      obtain ⟨b, rest, rfl, hstart⟩ := h.start
      exact ⟨b, rest, rfl, starts_of_startsNumber hstart⟩
  | _ => exact ⟨_, _, rfl, by decide, by decide, by decide, by decide⟩

/-- No number goes on here. -/
def Stops (rest : Str) : Prop := ∀ b ∈ rest.head?, isNumberChar b = false

/-- Blanks end a number, and behind them stands what stood there. -/
theorem stops_blank {blanks rest : Str} (hblank : Blank blanks) (hrest : Stops rest) : Stops (blanks ++ rest) := by
  cases blanks with
  | nil => exact hrest
  | cons b blanks =>
      intro x hx
      obtain rfl := Option.some.inj hx
      have hle := (hblank b List.mem_cons_self).1
      have hall : ∀ n ≤ 32, isNumberChar (UInt8.ofNat n) = false := by decide
      have hb := hall b.toNat (UInt8.le_iff_toNat_le.mp hle)
      rwa [UInt8.ofNat_toNat] at hb

theorem stops_cons {b : UInt8} {rest : Str} (h : isNumberChar b = false) : Stops (b :: rest) := by
  intro x hx
  obtain rfl := Option.some.inj hx
  exact h

/-! ## No NUL -/

/-- A character of the list stands in one of its texts. -/
theorem not_mem_separated {x : UInt8} {texts : List Str} (hcomma : x ≠ comma) (h : ∀ t ∈ texts, x ∉ t) :
    x ∉ separated texts := by
  induction texts with
  | nil => exact List.not_mem_nil
  | cons t texts ih =>
      obtain ⟨ht, h⟩ := List.forall_mem_cons.mp h
      cases texts with
      | nil =>
          rw [separated, List.intercalate_singleton]
          exact ht
      | cons t' texts =>
          have hrest := ih h
          unfold separated at hrest ⊢
          rw [List.intercalate_cons_cons]
          simp [ht, hcomma, hrest]

/-- The grammar leaves no room for a NUL: none is skipped, -/
theorem Blank.not_mem {t : Str} (h : Blank t) : (0 : UInt8) ∉ t := fun hmem => (h 0 hmem).2 rfl

theorem not_mem_quoted {t : Str} (h : (0 : UInt8) ∉ t) : (0 : UInt8) ∉ quoted t := by
  simp [quoted, h, quote]

theorem shortEscape_zero : shortEscape 0 = none := rfl

/-- none is written in a string, not even by an escape of one, -/
theorem Body.not_mem {s t : Str} (h : Body s t) : (0 : UInt8) ∉ t := by
  induction h with
  | nil => exact List.not_mem_nil
  | plain _ _ hnul _ ih => simp [ih, hnul.symm]
  | @short b e s t he _ ih =>
      have hne : (0 : UInt8) ≠ e := by
        rintro rfl
        rw [shortEscape_zero] at he
        cases he
      simp [ih, hne, backslash]
  | unicode hdigits _ ih =>
      have hnot : (0 : UInt8) ∉ _ := fun hmem => (hdigits.plain 0 hmem).2.2 rfl
      simp [ih, hnot, backslash, Json.unicode]
  | pair _ hhigh hlow _ ih =>
      have hnot : (0 : UInt8) ∉ _ := fun hmem => (hhigh.plain 0 hmem).2.2 rfl
      have hnot' : (0 : UInt8) ∉ _ := fun hmem => (hlow.plain 0 hmem).2.2 rfl
      simp [ih, hnot, hnot', backslash, Json.unicode]

/-- **and so none stands in a text.** To the C functions a text is as long as it is. -/
theorem Text.not_mem {strtod : Str → Option (ν × Nat)} {item : Item ν} {t : Str} (h : Text strtod item t) :
    (0 : UInt8) ∉ t := by
  induction h with
  | null => decide
  | false => decide
  | true => decide
  | number h =>
      intro hmem
      have hchar := h.chars 0 hmem
      cases hchar
  | string h => exact not_mem_quoted h.not_mem
  | emptyArray h => simp [h.not_mem, openBracket, closeBracket]
  | @array elements _ hblanks _ ih =>
      have hnot : (0 : UInt8) ∉ separated (elements.map Element.whole) := by
        refine not_mem_separated (by decide) (List.forall_mem_map.mpr (fun e he => ?_))
        simp [Element.whole, (hblanks e he).before.not_mem, (hblanks e he).after.not_mem, ih e he]
      simp [hnot, openBracket, closeBracket]
  | emptyObject h => simp [h.not_mem, openBrace, closeBrace]
  | @object members _ hblanks hname _ ih =>
      have hnot : (0 : UInt8) ∉ separated (members.map Member.whole) := by
        refine not_mem_separated (by decide) (List.forall_mem_map.mpr (fun m hm => ?_))
        have hblank := hblanks m hm
        simp [Member.whole, Element.whole, hblank.before.not_mem, hblank.after.not_mem, hblank.element.before.not_mem,
          hblank.element.after.not_mem, not_mem_quoted (hname m hm).not_mem, ih m hm, colon]
      simp [hnot, openBrace, closeBrace]

end CJson
end AstraeaGateway
