import AstraeaGateway.CJson.Reads
import AstraeaGateway.CJson.Print

/-!
# `CJson.RoundTrip` — what is printed is read back

The text of an item, in either format, is one of its texts in the sense of `CJson.Text`, so the parser reads
it as the item. `printed_read_back` needs what the text cannot carry to be absent: numbers that are not finite, raw
text, NULs, and too much nesting.
-/

namespace AstraeaGateway
namespace CJson

open Checked Json Http

/-! ## Strings and numbers -/

theorem fourDigits_control {b : UInt8} (h : b < 32) :
    FourDigits [48, 48, Hex.lower (b.toNat / 16), Hex.lower (b.toNat % 16)] (Char.ofNat b.toNat).toNat ∧
      String.utf8EncodeChar (Char.ofNat b.toNat) = [b] := by
  have hall : ∀ n < 32, (Char.ofNat n).toNat = n ∧ String.utf8EncodeChar (Char.ofNat n) = [UInt8.ofNat n] := by
    decide
  have hlt : b.toNat < 32 := UInt8.lt_iff_toNat_lt.mp h
  obtain ⟨hchar, hutf8⟩ := hall b.toNat hlt
  have hdigits := FourDigits.mk (a := 48) (b := 48) (w := 0) (x := 0) rfl rfl (Hex.value_lower (b.toNat / 16) (by omega))
    (Hex.value_lower (b.toNat % 16) (by omega))
  have hvalue : ((0 * 16 + 0) * 16 + b.toNat / 16) * 16 + b.toNat % 16 = b.toNat := by omega
  rw [hvalue] at hdigits
  rw [hchar, hutf8, UInt8.ofNat_toNat]
  exact ⟨hdigits, rfl⟩

/-- **Escaping** writes a string as JSON has it. -/
theorem body_escaped {s : Str} (h : (0 : UInt8) ∉ s) : Body s (escaped s) := by
  induction s with
  | nil => exact Body.nil
  | cons b s ih =>
      obtain ⟨hb, hs⟩ := not_or.mp (fun hor => h (List.mem_cons.mpr hor))
      have hrest := ih hs
      show Body (b :: s) (escapeByte b ++ escaped s)
      rcases escapeByte_cases b with ⟨htext, -, -, hquote, hback⟩ | ⟨e, htext, -, he⟩ | ⟨htext, -, hlt⟩
      · rw [htext]
        exact Body.plain hquote hback (fun heq => hb heq.symm) hrest
      · rw [htext]
        exact Body.short he hrest
      · obtain ⟨hdigits, hutf8⟩ := fourDigits_control hlt
        have hunicode := Body.unicode hdigits hrest
        rw [hutf8] at hunicode
        rw [htext]
        exact hunicode

variable {ν : Type} {libc : Libc ν} {format : Bool}

/-- **A finite number** is printed as a numeral for it. -/
theorem numeral_numberText {x : ν} (h : libc.isFinite x = true) : Numeral libc.strtod (numberText libc x) x := by
  unfold numberText
  rw [if_pos h]
  cases hscan : libc.scan (libc.format15 x) with
  | none => exact libc.numeral17 h
  | some y =>
      rw [Option.any_some]
      split
      case isTrue hequal => exact libc.numeral15 h hscan hequal
      case isFalse => exact libc.numeral17 h

/-! ## Blanks -/

theorem blank_inFormat (format : Bool) {x : UInt8} (h : x ≤ 32 ∧ x ≠ 0) : Blank (inFormat format x) := by
  cases format with
  | false => exact blank_nil
  | true => exact List.forall_mem_singleton.mpr h

/-- The tabs in front of a line. -/
def indent (format : Bool) (depth : Nat) : Str := if format then List.replicate depth tab else []

theorem blank_indent (format : Bool) (depth : Nat) : Blank (indent format depth) := by
  cases format with
  | false => exact blank_nil
  | true =>
      intro x hx
      obtain rfl := List.eq_of_mem_replicate hx
      decide

theorem Blank.append {s t : Str} (hs : Blank s) (ht : Blank t) : Blank (s ++ t) :=
  List.forall_mem_append.mpr ⟨hs, ht⟩

/-- The start of a line. -/
theorem blank_line (format : Bool) (depth : Nat) : Blank (inFormat format newline ++ indent format depth) :=
  (blank_inFormat format (by decide)).append (blank_indent format depth)

/-! ## Arrays -/

variable (libc format) (depth : Nat)

/-- The elements as they are printed: a formatted print has a space behind each comma. -/
def printedElements : Str → List (Item ν) → List (Element (Item ν))
  | _, []                    => []
  | before, item :: children =>
      ⟨item, before, valueText libc format depth item, []⟩ :: printedElements (inFormat format space) children

theorem separated_printedElements (before : Str) (item : Item ν) (children : List (Item ν)) :
    separated ((printedElements libc format depth before (item :: children)).map Element.whole)
      = before ++ elementsText libc format depth (item :: children) := by
  induction children generalizing before item with
  | nil => simp [printedElements, separated, elementsText, Element.whole]
  | cons next children ih =>
      have hrest := ih (inFormat format space) next
      rw [printedElements, List.map_cons, Element.whole, separated]
      rw [printedElements, List.map_cons, separated] at hrest
      have htext : elementsText libc format depth (item :: next :: children) = valueText libc format depth item ++
          (comma :: inFormat format space ++ elementsText libc format depth (next :: children)) := by
        rw [elementsText]
        rfl
      rw [printedElements, List.map_cons, List.intercalate_cons_cons, hrest, htext]
      simp

theorem map_value_printedElements (before : Str) (children : List (Item ν)) :
    (printedElements libc format depth before children).map Element.value = children := by
  induction children generalizing before with
  | nil => rfl
  | cons item children ih => rw [printedElements, List.map_cons, ih]

variable {libc format}

/-- What holds of every printed element. -/
theorem printedElements_all {P : Element (Item ν) → Prop} {children : List (Item ν)}
    (h : ∀ item ∈ children, ∀ before, Blank before → P ⟨item, before, valueText libc format depth item, []⟩)
    {before : Str} (hbefore : Blank before) : ∀ e ∈ printedElements libc format depth before children, P e := by
  induction children generalizing before with
  | nil => exact nofun
  | cons item children ih =>
      obtain ⟨hitem, h⟩ := List.forall_mem_cons.mp h
      exact List.forall_mem_cons.mpr ⟨hitem before hbefore, ih h (blank_inFormat format (by decide))⟩

/-! ## Objects -/

variable (libc format)

/-- The members as they are printed: in a formatted print each stands in a line of its own, and `after` is what
    stands between the last one and the closing brace. -/
def printedMembers (after : Str) : List (Str × Item ν) → List (Member (Item ν))
  | []                         => []
  | (string, item) :: children =>
      ⟨string, inFormat format newline ++ indent format depth, escaped string, [],
        ⟨item, inFormat format tab, valueText libc format depth item, if children.isEmpty then after else []⟩⟩ ::
      printedMembers after children

theorem separated_printedMembers (after : Str) (child : Str × Item ν) (children : List (Str × Item ν)) :
    separated ((printedMembers libc format depth (inFormat format newline ++ after) (child :: children)).map Member.whole)
      = inFormat format newline ++ (membersText libc format depth (child :: children) ++ after) := by
  induction children generalizing child with
  | nil =>
      obtain ⟨string, item⟩ := child
      simp [printedMembers, separated, membersText, Member.whole, Element.whole, indent]
  | cons next children ih =>
      obtain ⟨string, item⟩ := child
      have hrest := ih next
      rw [printedMembers, List.map_cons, separated] at hrest ⊢
      have htext : membersText libc format depth ((string, item) :: next :: children) = indent format depth ++
          (quoted (escaped string) ++ (colon :: inFormat format tab ++ (valueText libc format depth item ++
            ([comma] ++ inFormat format newline ++ membersText libc format depth (next :: children))))) := by
        rw [membersText]
        rfl
      rw [printedMembers, List.map_cons, List.intercalate_cons_cons, hrest, htext]
      simp [Member.whole, Element.whole]

theorem map_child_printedMembers (after : Str) {children : List (Str × Item ν)}
    (hkey : ∀ child ∈ children, (0 : UInt8) ∉ child.1) :
    (printedMembers libc format depth after children).map Member.child = children := by
  induction children with
  | nil => rfl
  | cons child children ih =>
      obtain ⟨string, item⟩ := child
      obtain ⟨hchild, hkey⟩ := List.forall_mem_cons.mp hkey
      rw [printedMembers, List.map_cons, ih hkey, Member.child, cStr_of_not_mem hchild]

variable {libc format}

/-- What holds of every printed member. -/
theorem printedMembers_all {P : Member (Item ν) → Prop} {after : Str} {children : List (Str × Item ν)}
    (hafter : Blank after) (h : ∀ child ∈ children, ∀ before between blanks, Blank before → Blank between → Blank blanks →
      P ⟨child.1, before, escaped child.1, [], ⟨child.2, between, valueText libc format depth child.2, blanks⟩⟩) :
    ∀ m ∈ printedMembers libc format depth after children, P m := by
  induction children with
  | nil => exact nofun
  | cons child children ih =>
      obtain ⟨hchild, h⟩ := List.forall_mem_cons.mp h
      have hblanks : Blank (if children.isEmpty then after else []) := by
        split
        · exact hafter
        · exact blank_nil
      have hbetween : Blank (inFormat format tab) := blank_inFormat format (by decide)
      have hmember := hchild _ _ _ (blank_line format depth) hbetween hblanks
      exact List.forall_mem_cons.mpr ⟨hmember, ih h⟩

/-! ## Items -/

/-- An item whose text carries all of it. -/
abbrev Printable (libc : Libc ν) (d : Nat) (item : Item ν) : Prop := WellFormed (fun x => libc.isFinite x = true) d item

/-- **The printed text is a text of the item.** -/
theorem valueText_text {d : Nat} {item : Item ν} (h : Printable libc d item) (depth : Nat) :
    Text libc.strtod item (valueText libc format depth item) := by
  induction h generalizing depth with
  | null => exact Text.null
  | false => exact Text.false
  | true => exact Text.true
  | number h => exact Text.number (numeral_numberText h)
  | @string _ s h =>
      have htext : Text libc.strtod (.string (cStr s)) (quoted (escaped s)) := Text.string (body_escaped h)
      rw [cStr_of_not_mem h] at htext
      exact htext
  | @array _ children _ ih =>
      cases children with
      | nil => exact Text.emptyArray blank_nil
      | cons item children =>
          have hne : printedElements libc format (depth + 1) [] (item :: children) ≠ [] := List.cons_ne_nil _ _
          have hblanks : ∀ e ∈ printedElements libc format (depth + 1) [] (item :: children), e.Blanks :=
            printedElements_all _ (fun _ _ _ hbefore => ⟨hbefore, blank_nil⟩) blank_nil
          have htexts : ∀ e ∈ printedElements libc format (depth + 1) [] (item :: children),
              Text libc.strtod e.value e.text :=
            printedElements_all _ (fun item hitem _ _ => ih item hitem (depth + 1)) blank_nil
          have htext := Text.array hne hblanks htexts
          rw [map_value_printedElements, separated_printedElements] at htext
          exact htext
  | @object _ children hkey _ ih =>
      cases children with
      | nil =>
          have htext : Text libc.strtod (.object []) _ := Text.emptyObject (blank_line format depth)
          rw [List.append_assoc] at htext
          exact htext
      | cons child children =>
          have hafter := blank_line format depth
          generalize hmembers : printedMembers libc format (depth + 1) (inFormat format newline ++ indent format depth)
            (child :: children) = members
          have hne : members ≠ [] := by
            rw [← hmembers]
            exact List.cons_ne_nil _ _
          have hblanks : ∀ m ∈ members, m.Blanks := by
            rw [← hmembers]
            exact printedMembers_all _ hafter (fun _ _ _ _ _ hbefore hbetween hblanks =>
              ⟨hbefore, blank_nil, ⟨hbetween, hblanks⟩⟩)
          have hnames : ∀ m ∈ members, Body m.name m.text := by
            rw [← hmembers]
            exact printedMembers_all _ hafter (fun child hchild _ _ _ _ _ _ => body_escaped (hkey child hchild))
          have htexts : ∀ m ∈ members, Text libc.strtod m.element.value m.element.text := by
            rw [← hmembers]
            exact printedMembers_all _ hafter (fun child hchild _ _ _ _ _ _ => ih child hchild (depth + 1))
          have htext := Text.object hne hblanks hnames htexts
          rw [← hmembers, map_child_printedMembers _ _ _ _ hkey, separated_printedMembers] at htext
          simp only [List.append_assoc] at htext
          exact htext

theorem valueText_read_back {d : Nat} {item : Item ν} (hitem : Printable libc d item) (hdepth : d ≤ nestingLimit)
    (requireNullTerminated : Bool) : parseWithOpts libc (valueText libc format 0 item) requireNullTerminated
      = .ok (item, (valueText libc format 0 item).length) := by
  have htext : Text libc.strtod item (valueText libc format 0 item) := valueText_text hitem 0
  have hreturns := parseWithOpts_returns libc htext (Or.inl rfl) blank_nil blank_nil requireNullTerminated
  have hparse := hreturns.1 (Nat.le_trans hitem.depth_le hdepth)
  simpa using hparse

/-- **What is printed is read back**, from any of the printing functions and in either format. -/
theorem printed_read_back (libc : Libc ν) (format : Bool) {item : Item ν} {text : Str}
    (hitem : Printable libc nestingLimit item) (hprint : IsPrinted libc format item text) (requireNullTerminated : Bool) :
    parseWithOpts libc text requireNullTerminated = .ok (item, text.length) := by
  obtain rfl := hprint.eq
  exact valueText_read_back hitem (Nat.le_refl _) requireNullTerminated

/-- An array in an object. -/
def nestedItem : Item Nat := .object [(lit "a", .array [.number 1, .null])]

theorem printed_read_back_nested :
    parseWithOpts Libc.naturals (lit "\x7b\n\t\"a\":\t[1, null]\n\x7d") true = .ok (nestedItem, 19) := by
  have hitem : Printable Libc.naturals nestingLimit nestedItem :=
    WellFormed.object (List.forall_mem_singleton.mpr (by decide)) (List.forall_mem_singleton.mpr
      (WellFormed.array (List.forall_mem_cons.mpr ⟨WellFormed.number (by decide),
        List.forall_mem_singleton.mpr WellFormed.null⟩)))
  have htext : valueText Libc.naturals true 0 nestedItem = lit "\x7b\n\t\"a\":\t[1, null]\n\x7d" := by
    decide +kernel
  have hprint : print Libc.naturals true nestedItem = .ok (lit "\x7b\n\t\"a\":\t[1, null]\n\x7d") := by
    rw [print_eq, htext]
    exact if_pos (by decide +kernel)
  exact printed_read_back Libc.naturals true hitem (Or.inl hprint) true

end CJson
end AstraeaGateway
