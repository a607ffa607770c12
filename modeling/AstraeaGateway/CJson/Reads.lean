import AstraeaGateway.CJson.Text

/-!
# `CJson.Reads` — every text of an item is read as the item

The parser against the grammar of `CJson.Text`. `Reads` says of one parser that it reads a text, wherever it
stands, exactly under a condition; the loops over children take it from the elements to the sequence.
`parseWithOpts_returns`: the condition of the whole parser is the nesting. The numerals of a text have at most 63
characters, as many as `parse_number` has room for; longer ones are the subject of `CJson.LongNumerals`.
-/

namespace AstraeaGateway
namespace CJson

open Checked Json Http

variable {α ν : Type} {content rest blanks t : Str} {offset : Nat} {b : UInt8}

/-- The blanks in front of a value. -/
theorem skipWhitespace_starts (hdrop : content.drop offset = blanks ++ (t ++ rest)) (hblank : Blank blanks)
    (hstarts : Starts t) : skipWhitespace content offset = offset + blanks.length := by
  obtain ⟨b, t, rfl, hlt, -⟩ := hstarts
  exact skipWhitespace_of_drop hdrop (fun x hx => (hblank x hx).1) hlt

/-- The blanks behind a value. -/
theorem skipWhitespace_behind (hdrop : content.drop offset = blanks ++ b :: rest) (hblank : Blank blanks)
    (hlt : 32 < b) : skipWhitespace content offset = offset + blanks.length ∧
      content[offset + blanks.length]? = some b :=
  ⟨skipWhitespace_of_drop hdrop (fun x hx => (hblank x hx).1) hlt, getElem?_of_drop (drop_add_of_drop hdrop)⟩

/-! ## Reading a text -/

def IsRefused (e : Failure) : Prop := ∃ p, e = .refused p

/-- Wherever `t` stands, the parser `value` reads it as `x` if `c` holds, and refuses it otherwise. -/
def Reads (content : Str) (value : Nat → Parsed (α × Nat)) (c : Prop) (x : α) (t : Str) : Prop :=
  ∀ offset rest, content.drop offset = t ++ rest → Stops rest →
    Returns c (x, offset + t.length) (value offset) IsRefused

variable {value : Nat → Parsed (α × Nat)} {c : α → Prop} {fuel : Nat}

/-- One element with its blanks, up to a character that is no blank and no part of a number. -/
theorem Reads.element {e : Element α} (h : Reads content value (c e.value) e.value e.text) (hblanks : e.Blanks)
    (hstarts : Starts e.text) (hdrop : content.drop offset = e.whole ++ b :: rest) (hlt : 32 < b)
    (hb : isNumberChar b = false) :
    ∃ o, Returns (c e.value) (e.value, o) (value (skipWhitespace content offset)) IsRefused ∧
      skipWhitespace content o = offset + e.whole.length ∧ content[offset + e.whole.length]? = some b := by
  have hdrop' : content.drop offset = e.before ++ (e.text ++ (e.after ++ b :: rest)) := by
    rw [hdrop]
    simp [Element.whole]
  have hskip := skipWhitespace_starts hdrop' hblanks.before hstarts
  have hvalue := h (offset + e.before.length) (e.after ++ b :: rest) (drop_add_of_drop hdrop')
    (stops_blank hblanks.after (stops_cons hb))
  have hbehind := skipWhitespace_behind (drop_add_of_drop (drop_add_of_drop hdrop')) hblanks.after hlt
  have hlen : offset + e.before.length + e.text.length + e.after.length = offset + e.whole.length := by
    simp only [Element.whole, List.length_append]
    omega
  rw [hlen] at hbehind
  rw [hskip]
  exact ⟨_, hvalue, hbehind⟩

/-- **The loop over the elements**, from the character in front of the first one. -/
theorem parseElements_text (elements : List (Element α)) (hne : elements ≠ [])
    (hblanks : ∀ e ∈ elements, e.Blanks) (hstarts : ∀ e ∈ elements, Starts e.text)
    (h : ∀ e ∈ elements, Reads content value (c e.value) e.value e.text)
    (hdrop : content.drop (offset + 1) = separated (elements.map Element.whole) ++ closeBracket :: rest)
    (hfuel : content.length ≤ fuel + offset) :
    Returns (∀ e ∈ elements, c e.value)
      (elements.map Element.value, offset + 1 + (separated (elements.map Element.whole)).length)
      (parseElements value content fuel offset) IsRefused := by
  induction elements generalizing offset fuel with
  | nil => exact absurd rfl hne
  | cons e elements ih =>
      obtain ⟨heblanks, hblanks⟩ := List.forall_mem_cons.mp hblanks
      obtain ⟨hestarts, hstarts⟩ := List.forall_mem_cons.mp hstarts
      obtain ⟨he, h⟩ := List.forall_mem_cons.mp h
      have hlt : offset < content.length := by
        have hlen := congrArg List.length hdrop
        simp only [List.length_drop, List.length_append, List.length_cons] at hlen
        omega
      obtain ⟨fuel, rfl⟩ := Nat.exists_eq_succ_of_ne_zero (show fuel ≠ 0 by omega)
      cases elements with
      | nil =>
          have hsep : separated ([e].map Element.whole) = e.whole := List.intercalate_singleton
          rw [hsep] at hdrop ⊢
          obtain ⟨o, hvalue, hskip, hclose⟩ := he.element heblanks hestarts hdrop (by decide) (by decide)
          have hcomma : content[skipWhitespace content o]? ≠ some comma := by
            rw [hskip, hclose]
            decide
          rw [parseElements]
          refine (hvalue.and_then ?_).congr List.forall_mem_singleton rfl
          dsimp only
          rw [if_neg hcomma, hskip]
          rfl
      | cons e' elements =>
          have hsep : separated ((e :: e' :: elements).map Element.whole)
              = e.whole ++ comma :: separated ((e' :: elements).map Element.whole) := by
            simp [separated]
          rw [hsep, List.append_assoc, List.cons_append] at hdrop
          obtain ⟨o, hvalue, hskip, hcomma⟩ := he.element heblanks hestarts hdrop (by decide) (by decide)
          have hrest := drop_succ_of_drop (drop_add_of_drop hdrop)
          rw [← hskip] at hrest hcomma
          have hgt : offset < skipWhitespace content o := by omega
          have hfuel' : content.length ≤ fuel + skipWhitespace content o := by omega
          have htail := ih (List.cons_ne_nil _ _) hblanks hstarts h hrest hfuel'
          rw [parseElements]
          refine (hvalue.bind (d := ∀ x ∈ e' :: elements, c x.value) ?_).congr List.forall_mem_cons rfl
          dsimp only
          rw [if_pos hcomma]
          have hlen : offset + 1 + (separated ((e :: e' :: elements).map Element.whole)).length
              = skipWhitespace content o + 1 + (separated ((e' :: elements).map Element.whole)).length := by
            rw [hsep, hskip, List.length_append, List.length_cons]
            omega
          rw [hlen]
          exact htail.and_then rfl

/-- The character that the loops step back to. -/
theorem skipWhitespace_again (hdrop : content.drop offset = blanks ++ b :: rest) (hblank : Blank blanks)
    (hlt : 32 < b) : skipWhitespace content (skipWhitespace content offset) = skipWhitespace content offset := by
  rw [(skipWhitespace_behind hdrop hblank hlt).1]
  have hagain : content.drop (offset + blanks.length) = [] ++ b :: rest := drop_add_of_drop hdrop
  exact skipWhitespace_of_drop hagain nofun hlt

/-- Where a sequence of values starts, behind its first blanks. -/
theorem separated_head {w t before after : Str} (hw : w = before ++ (t ++ after)) (hstarts : Starts t)
    (texts : List Str) (rest : Str) : ∃ b tail, separated (w :: texts) ++ rest = before ++ b :: tail ∧
      32 < b ∧ b ≠ closeBracket ∧ b ≠ closeBrace := by
  obtain ⟨b, t, rfl, hlt, -, hbracket, hbrace⟩ := hstarts
  have hsep : ∃ tail, separated (w :: texts) = w ++ tail := by
    cases texts with
    | nil => exact ⟨[], by rw [List.append_nil]; exact List.intercalate_singleton⟩
    | cons w' texts => exact ⟨comma :: separated (w' :: texts), by simp [separated]⟩
  obtain ⟨tail, htail⟩ := hsep
  refine ⟨b, t ++ (after ++ (tail ++ rest)), ?_, hlt, hbracket, hbrace⟩
  rw [htail, hw]
  simp

theorem parseElements_again (hdrop : content.drop (offset + 1) = blanks ++ b :: rest) (hblank : Blank blanks)
    (hlt : 32 < b) (hfuel : 0 < fuel) :
    parseElements value content fuel (skipWhitespace content (offset + 1) - 1)
      = parseElements value content fuel offset := by
  obtain ⟨fuel, rfl⟩ := Nat.exists_eq_succ_of_ne_zero (Nat.ne_of_gt hfuel)
  have hle : offset + 1 ≤ skipWhitespace content (offset + 1) := by
    rw [(skipWhitespace_behind hdrop hblank hlt).1]
    exact Nat.le_add_right ..
  rw [parseElements, parseElements, Nat.sub_add_cancel (Nat.le_trans (Nat.le_add_left 1 offset) hle),
    skipWhitespace_again hdrop hblank hlt]

/-- The opening bracket is read, and what stands in the brackets comes next. -/
theorem parseArray_open (hdrop : content.drop offset = openBracket :: (blanks ++ b :: rest)) (hblank : Blank blanks)
    (hlt : 32 < b) (hne : b ≠ closeBracket) :
    parseArray value content offset = (do
      let (children, offset) ← parseElements value content content.length offset
      if content[offset]? = some closeBracket then return (children, offset + 1)
      else .error (.refused offset)) := by
  have hnext := drop_succ_of_drop hdrop
  obtain ⟨hskip, hb⟩ := skipWhitespace_behind hnext hblank hlt
  have hin : skipWhitespace content (offset + 1) < content.length :=
    skipWhitespace_lt (lt_of_le_of_lt (Nat.le_add_right _ _) (List.getElem?_eq_some_iff.mp hb).1)
  rw [← hskip] at hb
  have hnot : content[skipWhitespace content (offset + 1)]? ≠ some closeBracket := by
    rw [hb]
    exact fun heq => hne (Option.some.inj heq)
  rw [parseArray, bind_of_ok (read_of_drop hdrop)]
  show (if _ then _ else _) = _
  rw [if_neg (not_not.mpr rfl)]
  show (if _ then _ else if _ then _ else _) = _
  rw [if_neg hnot, if_neg (Nat.not_le.mpr hin), parseElements_again hnext hblank hlt (by omega)]

theorem parseArray_text {elements : List (Element α)} (hne : elements ≠ []) (hblanks : ∀ e ∈ elements, e.Blanks)
    (hstarts : ∀ e ∈ elements, Starts e.text) (h : ∀ e ∈ elements, Reads content value (c e.value) e.value e.text) :
    Reads content (parseArray value content) (∀ e ∈ elements, c e.value) (elements.map Element.value)
      (openBracket :: (separated (elements.map Element.whole) ++ [closeBracket])) := by
  intro offset rest hdrop _
  obtain ⟨e, elements, rfl⟩ := List.exists_cons_of_ne_nil hne
  rw [List.cons_append, List.append_assoc, List.singleton_append] at hdrop
  obtain ⟨b, tail, hhead, hlt, hclose, -⟩ := separated_head (w := e.whole) rfl (hstarts e List.mem_cons_self)
    (elements.map Element.whole) (closeBracket :: rest)
  have hopen := hdrop
  rw [List.map_cons, hhead] at hopen
  rw [parseArray_open hopen (hblanks e List.mem_cons_self).before hlt hclose]
  have hnext := drop_succ_of_drop hdrop
  have hclosed := getElem?_of_drop (drop_add_of_drop hnext)
  have hloop := parseElements_text (e :: elements) hne hblanks hstarts h hnext (Nat.le_add_right content.length offset)
  have hlen : offset + (openBracket :: (separated ((e :: elements).map Element.whole) ++ [closeBracket])).length
      = offset + 1 + (separated ((e :: elements).map Element.whole)).length + 1 := by
    rw [List.length_cons, List.length_append, List.length_singleton]
    omega
  rw [hlen]
  exact hloop.and_then (if_pos hclosed)

theorem parseArray_empty (value : Nat → Parsed (α × Nat)) (hblank : Blank blanks) :
    Reads content (parseArray value content) True [] (openBracket :: (blanks ++ [closeBracket])) := by
  intro offset rest hdrop _
  rw [List.cons_append, List.append_assoc, List.singleton_append] at hdrop
  obtain ⟨hskip, hclose⟩ := skipWhitespace_behind (drop_succ_of_drop hdrop) hblank (by decide)
  rw [← hskip] at hclose
  refine Returns.of_ok ?_ trivial
  rw [parseArray, bind_of_ok (read_of_drop hdrop)]
  show (if _ then _ else _) = _
  rw [if_neg (not_not.mpr rfl)]
  show (if _ then _ else _) = _
  rw [if_pos hclose, hskip, List.length_cons, List.length_append, List.length_singleton]
  show Except.ok ([], _) = Except.ok ([], _)
  congr 2
  omega

/-! ### Objects -/

theorem starts_quoted (t : Str) : Starts (quoted t) :=
  ⟨quote, t ++ [quote], rfl, by decide, by decide, by decide, by decide⟩

/-- One name and value. -/
theorem parseMember_text {m : Member α} (hblanks : m.Blanks) (hname : Body m.name m.text)
    (hstarts : Starts m.element.text) (h : Reads content value (c m.element.value) m.element.value m.element.text)
    (hdrop : content.drop (offset + 1) = m.whole ++ b :: rest) (hlt : 32 < b) (hb : isNumberChar b = false) :
    Returns (c m.element.value) (m.child, offset + 1 + m.whole.length) (parseMember value content offset) IsRefused ∧
      content[offset + 1 + m.whole.length]? = some b := by
  have hdrop' : content.drop (offset + 1)
      = m.before ++ (quoted m.text ++ (m.after ++ colon :: (m.element.whole ++ b :: rest))) := by
    rw [hdrop]
    simp [Member.whole]
  have hskip := skipWhitespace_starts hdrop' hblanks.before (starts_quoted m.text)
  have hstring : content.drop (offset + 1 + m.before.length)
      = quote :: (m.text ++ quote :: (m.after ++ colon :: (m.element.whole ++ b :: rest))) := by
    rw [drop_add_of_drop hdrop']
    simp [quoted]
  have hparse := parseString_body hname hstring
  have hbehind := drop_add_of_drop (drop_add_of_drop hdrop')
  have hlen : offset + 1 + m.before.length + 1 + m.text.length + 1
      = offset + 1 + m.before.length + (quoted m.text).length := by
    simp only [quoted, List.length_append, List.length_cons, List.length_nil]
    omega
  rw [hlen] at hparse
  obtain ⟨hskip2, hcolon⟩ := skipWhitespace_behind hbehind hblanks.after (by decide)
  have helement := drop_succ_of_drop (drop_add_of_drop hbehind)
  rw [← hskip2] at hcolon helement
  obtain ⟨o, hvalue, hskip3, hend⟩ := h.element hblanks.element hstarts helement hlt hb
  have htotal : skipWhitespace content (offset + 1 + m.before.length + (quoted m.text).length) + 1
      + m.element.whole.length = offset + 1 + m.whole.length := by
    rw [hskip2]
    simp only [Member.whole, List.length_append, List.length_cons]
    omega
  rw [htotal] at hskip3 hend
  refine ⟨?_, hend⟩
  rw [parseMember, hskip, bind_of_ok hparse]
  dsimp only
  rw [if_pos hcolon]
  refine hvalue.and_then ?_
  dsimp only
  rw [hskip3]
  rfl

/-- **The loop over the members**, from the character in front of the first one. -/
theorem parseMembers_text (members : List (Member α)) (hne : members ≠ []) (hblanks : ∀ m ∈ members, m.Blanks)
    (hname : ∀ m ∈ members, Body m.name m.text) (hstarts : ∀ m ∈ members, Starts m.element.text)
    (h : ∀ m ∈ members, Reads content value (c m.element.value) m.element.value m.element.text)
    (hdrop : content.drop (offset + 1) = separated (members.map Member.whole) ++ closeBrace :: rest)
    (hfuel : content.length ≤ fuel + offset) :
    Returns (∀ m ∈ members, c m.element.value)
      (members.map Member.child, offset + 1 + (separated (members.map Member.whole)).length)
      (parseMembers value content fuel offset) IsRefused := by
  induction members generalizing offset fuel with
  | nil => exact absurd rfl hne
  | cons m members ih =>
      obtain ⟨hmblanks, hblanks⟩ := List.forall_mem_cons.mp hblanks
      obtain ⟨hmname, hname⟩ := List.forall_mem_cons.mp hname
      obtain ⟨hmstarts, hstarts⟩ := List.forall_mem_cons.mp hstarts
      obtain ⟨hm, h⟩ := List.forall_mem_cons.mp h
      have hlt : offset < content.length := by
        have hlen := congrArg List.length hdrop
        simp only [List.length_drop, List.length_append, List.length_cons] at hlen
        omega
      obtain ⟨fuel, rfl⟩ := Nat.exists_eq_succ_of_ne_zero (show fuel ≠ 0 by omega)
      cases members with
      | nil =>
          have hsep : separated ([m].map Member.whole) = m.whole := List.intercalate_singleton
          rw [hsep] at hdrop ⊢
          obtain ⟨hmember, hclose⟩ := parseMember_text hmblanks hmname hmstarts hm hdrop (by decide) (by decide)
          have hcomma : content[offset + 1 + m.whole.length]? ≠ some comma := by
            rw [hclose]
            decide
          rw [parseMembers]
          refine (hmember.and_then ?_).congr List.forall_mem_singleton rfl
          exact if_neg hcomma
      | cons m' members =>
          have hsep : separated ((m :: m' :: members).map Member.whole)
              = m.whole ++ comma :: separated ((m' :: members).map Member.whole) := by
            simp [separated]
          rw [hsep, List.append_assoc, List.cons_append] at hdrop
          obtain ⟨hmember, hcomma⟩ := parseMember_text hmblanks hmname hmstarts hm hdrop (by decide) (by decide)
          have hrest := drop_succ_of_drop (drop_add_of_drop hdrop)
          have hfuel' : content.length ≤ fuel + (offset + 1 + m.whole.length) := by omega
          have htail := ih (List.cons_ne_nil _ _) hblanks hname hstarts h hrest hfuel'
          rw [parseMembers]
          refine (hmember.bind (d := ∀ x ∈ m' :: members, c x.element.value) ?_).congr List.forall_mem_cons rfl
          dsimp only
          rw [if_pos hcomma]
          have hlen : offset + 1 + (separated ((m :: m' :: members).map Member.whole)).length
              = offset + 1 + m.whole.length + 1 + (separated ((m' :: members).map Member.whole)).length := by
            rw [hsep, List.length_append, List.length_cons]
            omega
          rw [hlen]
          exact htail.and_then rfl

theorem parseMembers_again (hdrop : content.drop (offset + 1) = blanks ++ b :: rest) (hblank : Blank blanks)
    (hlt : 32 < b) (hfuel : 0 < fuel) :
    parseMembers value content fuel (skipWhitespace content (offset + 1) - 1)
      = parseMembers value content fuel offset := by
  obtain ⟨fuel, rfl⟩ := Nat.exists_eq_succ_of_ne_zero (Nat.ne_of_gt hfuel)
  have hle : offset + 1 ≤ skipWhitespace content (offset + 1) := by
    rw [(skipWhitespace_behind hdrop hblank hlt).1]
    exact Nat.le_add_right ..
  have hmember : parseMember value content (skipWhitespace content (offset + 1) - 1)
      = parseMember value content offset := by
    rw [parseMember, parseMember, Nat.sub_add_cancel (Nat.le_trans (Nat.le_add_left 1 offset) hle),
      skipWhitespace_again hdrop hblank hlt]
  rw [parseMembers, parseMembers, hmember]

/-- The opening brace is read, and what stands in the braces comes next. -/
theorem parseObject_open (hdrop : content.drop offset = openBrace :: (blanks ++ b :: rest)) (hblank : Blank blanks)
    (hlt : 32 < b) (hne : b ≠ closeBrace) :
    parseObject value content offset = (do
      let (children, offset) ← parseMembers value content content.length offset
      if content[offset]? = some closeBrace then return (children, offset + 1)
      else .error (.refused offset)) := by
  have hnext := drop_succ_of_drop hdrop
  obtain ⟨hskip, hb⟩ := skipWhitespace_behind hnext hblank hlt
  have hin : skipWhitespace content (offset + 1) < content.length :=
    skipWhitespace_lt (lt_of_le_of_lt (Nat.le_add_right _ _) (List.getElem?_eq_some_iff.mp hb).1)
  rw [← hskip] at hb
  have hnot : content[skipWhitespace content (offset + 1)]? ≠ some closeBrace := by
    rw [hb]
    exact fun heq => hne (Option.some.inj heq)
  rw [parseObject, if_neg (not_not.mpr (getElem?_of_drop hdrop))]
  show (if _ then _ else if _ then _ else _) = _
  rw [if_neg hnot, if_neg (Nat.not_le.mpr hin), parseMembers_again hnext hblank hlt (by omega)]

theorem parseObject_text {members : List (Member α)} (hne : members ≠ []) (hblanks : ∀ m ∈ members, m.Blanks)
    (hname : ∀ m ∈ members, Body m.name m.text) (hstarts : ∀ m ∈ members, Starts m.element.text)
    (h : ∀ m ∈ members, Reads content value (c m.element.value) m.element.value m.element.text) :
    Reads content (parseObject value content) (∀ m ∈ members, c m.element.value) (members.map Member.child)
      (openBrace :: (separated (members.map Member.whole) ++ [closeBrace])) := by
  intro offset rest hdrop _
  obtain ⟨m, members, rfl⟩ := List.exists_cons_of_ne_nil hne
  rw [List.cons_append, List.append_assoc, List.singleton_append] at hdrop
  obtain ⟨b, tail, hhead, hlt, -, hclose⟩ := separated_head (w := m.whole) rfl (starts_quoted m.text)
    (members.map Member.whole) (closeBrace :: rest)
  have hopen := hdrop
  rw [List.map_cons, hhead] at hopen
  rw [parseObject_open hopen (hblanks m List.mem_cons_self).before hlt hclose]
  have hnext := drop_succ_of_drop hdrop
  have hclosed := getElem?_of_drop (drop_add_of_drop hnext)
  have hloop := parseMembers_text (m :: members) hne hblanks hname hstarts h hnext
    (Nat.le_add_right content.length offset)
  have hlen : offset + (openBrace :: (separated ((m :: members).map Member.whole) ++ [closeBrace])).length
      = offset + 1 + (separated ((m :: members).map Member.whole)).length + 1 := by
    rw [List.length_cons, List.length_append, List.length_singleton]
    omega
  rw [hlen]
  exact hloop.and_then (if_pos hclosed)

theorem parseObject_empty (value : Nat → Parsed (α × Nat)) (hblank : Blank blanks) :
    Reads content (parseObject value content) True [] (openBrace :: (blanks ++ [closeBrace])) := by
  intro offset rest hdrop _
  rw [List.cons_append, List.append_assoc, List.singleton_append] at hdrop
  obtain ⟨hskip, hclose⟩ := skipWhitespace_behind (drop_succ_of_drop hdrop) hblank (by decide)
  rw [← hskip] at hclose
  refine Returns.of_ok ?_ trivial
  rw [parseObject, if_neg (not_not.mpr (getElem?_of_drop hdrop))]
  show (if _ then _ else _) = _
  rw [if_pos hclose, hskip, List.length_cons, List.length_append, List.length_singleton]
  show Except.ok ([], _) = Except.ok ([], _)
  congr 2
  omega

/-! ### Values -/

variable (libc : Libc ν) {item : Item ν}

/-- **A numeral** is copied up to its last character, and no further. -/
theorem parseNumber_text {x : ν} (h : Numeral libc.strtod t x) :
    Reads content (parseNumber libc content) True x t := by
  intro offset rest hdrop hstops
  have hcopied : ((content.drop offset).take 63).takeWhile isNumberChar = t := by
    rw [hdrop, List.take_append, List.take_of_length_le h.short, List.takeWhile_append_of_pos h.chars]
    cases rest with
    | nil => simp
    | cons b rest =>
        have hb := hstops b rfl
        cases hleft : 63 - t.length with
        | zero => simp
        | succ k => simp [hb]
  refine Returns.of_ok ?_ trivial
  rw [parseNumber, hcopied, h.value]

theorem startsWith_of_drop (hdrop : content.drop offset = t ++ rest) (hne : t ≠ []) :
    startsWith content offset t = true := by
  have hpos := List.length_pos_of_ne_nil hne
  have hlen := congrArg List.length hdrop
  rw [List.length_drop, List.length_append] at hlen
  unfold startsWith
  rw [hdrop, List.take_left, decide_eq_true (by omega), decide_eq_true rfl]
  rfl

theorem startsWith_of_ne {x : UInt8} {token : Str} (hdrop : content.drop offset = b :: rest) (hne : b ≠ x) :
    startsWith content offset (x :: token) = false := by
  unfold startsWith
  rw [hdrop, List.length_cons, List.take_succ_cons]
  have hnot : b :: rest.take token.length ≠ x :: token := fun heq => hne (List.cons.inj heq).1
  rw [decide_eq_false hnot, Bool.and_false]

theorem not_startsWith {text : Str} {x : UInt8} {token : Str} (hdrop : content.drop offset = text ++ rest)
    (hhead : text.head? = some b) (hne : b ≠ x) : startsWith content offset (x :: token) = false := by
  obtain ⟨tail, rfl⟩ := List.head?_eq_some_iff.mp hhead
  exact startsWith_of_ne hdrop hne

theorem asItem_returns {β : Type} {f : β → Item ν} {p : Prop} {x : β} {o : Nat} {r : Parsed (β × Nat)}
    (h : Returns p (x, o) r IsRefused) : Returns p (f x, o) (asItem f r) IsRefused := by
  refine ⟨fun hp => ?_, fun hnp => ?_⟩
  · rw [h.1 hp]
    rfl
  · obtain ⟨e, he, hr⟩ := h.2 hnp
    exact ⟨e, he, by rw [hr]; rfl⟩

/-- What is refused is no item. -/
theorem asItem_sat {β : Type} {f : β → Item ν} {r : Parsed (β × Nat)} {Q : Item ν × Nat → Prop} {E : Failure → Prop}
    (h : Sat r (fun _ => False) E) : Sat (asItem f r) Q E := by
  cases r with
  | ok x => exact False.elim h
  | error e => exact h

/-- Without one of the three words, the first character decides. -/
theorem parseValue_of_head (hdrop : content.drop offset = b :: rest) (hn : b ≠ 110) (hf : b ≠ 102) (ht : b ≠ 116)
    (levels : Nat) : parseValue libc content levels offset =
      if b = quote then asItem .string (parseString content offset)
      else if startsNumber b then asItem .number (parseNumber libc content offset)
      else if b = openBracket then
        match levels with
        | 0          => .error (.refused offset)
        | levels + 1 => asItem .array (parseArray (parseValue libc content levels) content offset)
      else if b = openBrace then
        match levels with
        | 0          => .error (.refused offset)
        | levels + 1 => asItem .object (parseObject (parseValue libc content levels) content offset)
      else .error (.refused offset) := by
  have hnull : startsWith content offset (lit "null") = false := startsWith_of_ne hdrop hn
  have hfalse : startsWith content offset (lit "false") = false := startsWith_of_ne hdrop hf
  have htrue : startsWith content offset (lit "true") = false := startsWith_of_ne hdrop ht
  cases levels with
  | zero =>
      rw [parseValue.eq_def]
      simp only [hnull, hfalse, htrue, getElem?_of_drop hdrop, Option.any_some, Option.some.injEq, Bool.false_eq_true,
        if_false]
  | succ levels =>
      rw [parseValue.eq_def]
      simp only [hnull, hfalse, htrue, getElem?_of_drop hdrop, Option.any_some, Option.some.injEq, Bool.false_eq_true,
        if_false]

/-- A value that starts like a number is read by `parse_number`. -/
theorem parseValue_number (hdrop : content.drop offset = b :: rest) (hstart : startsNumber b = true) (levels : Nat) :
    parseValue libc content levels offset = asItem .number (parseNumber libc content offset) := by
  have hne : ∀ x, startsNumber x = false → b ≠ x := by
    rintro x hx rfl
    rw [hx] at hstart
    cases hstart
  rw [parseValue_of_head libc hdrop (hne _ rfl) (hne _ rfl) (hne _ rfl), if_neg (hne _ rfl), if_pos hstart]

/-- **`parse_value` reads every text of an item** as this item, if it may be nested so deeply. -/
theorem parseValue_text (h : Text libc.strtod item t) (levels : Nat) :
    Reads content (parseValue libc content levels) (item.depth ≤ levels) item t := by
  induction h generalizing levels with
  | null =>
      intro offset rest hdrop _
      refine Returns.of_ok ?_ (Nat.zero_le levels)
      rw [parseValue.eq_def]
      dsimp only
      rw [if_pos (startsWith_of_drop hdrop (by decide))]
      rfl
  | false =>
      intro offset rest hdrop _
      have hnull : startsWith content offset (lit "null") = false := not_startsWith hdrop rfl (by decide)
      refine Returns.of_ok ?_ (Nat.zero_le levels)
      rw [parseValue.eq_def]
      dsimp only
      rw [hnull, if_neg (by decide), if_pos (startsWith_of_drop hdrop (by decide))]
      rfl
  | true =>
      intro offset rest hdrop _
      have hnull : startsWith content offset (lit "null") = false := not_startsWith hdrop rfl (by decide)
      have hfalse : startsWith content offset (lit "false") = false := not_startsWith hdrop rfl (by decide)
      refine Returns.of_ok ?_ (Nat.zero_le levels)
      rw [parseValue.eq_def]
      dsimp only
      rw [hnull, if_neg (by decide), hfalse, if_neg (by decide), if_pos (startsWith_of_drop hdrop (by decide))]
      rfl
  | number h =>
      intro offset rest hdrop hstops
      have hread := parseNumber_text libc h offset rest hdrop hstops
      obtain ⟨b, t, rfl, hstart⟩ := h.start
      rw [parseValue_number libc hdrop hstart levels]
      exact (asItem_returns hread).congr (iff_true_intro (Nat.zero_le levels)) rfl
  | @string s t h =>
      intro offset rest hdrop _
      have hdrop' : content.drop offset = quote :: (t ++ quote :: rest) := by
        rw [hdrop]
        simp [quoted]
      refine Returns.of_ok ?_ (Nat.zero_le levels)
      rw [parseValue_of_head libc hdrop' (by decide) (by decide) (by decide), if_pos rfl,
        parseString_body h hdrop']
      show Except.ok _ = Except.ok _
      simp only [quoted, List.length_append, List.length_cons, List.length_nil]
      congr 2
      omega
  | emptyArray h =>
      intro offset rest hdrop hstops
      rw [parseValue_of_head libc hdrop (by decide) (by decide) (by decide)]
      cases levels with
      | zero => exact Returns.of_error rfl ⟨offset, rfl⟩ (Nat.not_succ_le_zero _)
      | succ levels =>
          have hread := parseArray_empty (parseValue libc content levels) h offset rest hdrop hstops
          exact (asItem_returns hread).congr (iff_true_intro (Nat.succ_pos levels)) rfl
  | array hne hblanks h ih =>
      intro offset rest hdrop hstops
      rw [parseValue_of_head libc hdrop (by decide) (by decide) (by decide)]
      cases levels with
      | zero => exact Returns.of_error rfl ⟨offset, rfl⟩ (Nat.not_succ_le_zero _)
      | succ levels =>
          have hread := parseArray_text (c := fun item => item.depth ≤ levels) hne hblanks
            (fun e he => (h e he).starts) (fun e he => ih e he levels) offset rest hdrop hstops
          refine (asItem_returns hread).congr ?_ rfl
          rw [Item.depth, Nat.succ_le_succ_iff, depthOfItems_le, List.forall_mem_map]
  | emptyObject h =>
      intro offset rest hdrop hstops
      rw [parseValue_of_head libc hdrop (by decide) (by decide) (by decide)]
      cases levels with
      | zero => exact Returns.of_error rfl ⟨offset, rfl⟩ (Nat.not_succ_le_zero _)
      | succ levels =>
          have hread := parseObject_empty (parseValue libc content levels) h offset rest hdrop hstops
          exact (asItem_returns hread).congr (iff_true_intro (Nat.succ_pos levels)) rfl
  | object hne hblanks hname h ih =>
      intro offset rest hdrop hstops
      rw [parseValue_of_head libc hdrop (by decide) (by decide) (by decide)]
      cases levels with
      | zero => exact Returns.of_error rfl ⟨offset, rfl⟩ (Nat.not_succ_le_zero _)
      | succ levels =>
          have hread := parseObject_text (c := fun item => item.depth ≤ levels) hne hblanks hname
            (fun m hm => (h m hm).starts) (fun m hm => ih m hm levels) offset rest hdrop hstops
          refine (asItem_returns hread).congr ?_ rfl
          rw [Item.depth, Nat.succ_le_succ_iff, depthOfMembers_le, List.forall_mem_map]
          rfl

/-! ## The whole text -/

/-- What may stand in front of a text: the byte order mark of UTF-8, or nothing. -/
def IsMark (mark : Str) : Prop := mark = [] ∨ mark = [0xEF, 0xBB, 0xBF]

theorem skipUtf8Bom_mark {mark : Str} (hmark : IsMark mark) (hblank : Blank blanks) (hstarts : Starts t)
    (rest : Str) : skipUtf8Bom (mark ++ (blanks ++ (t ++ rest)) ++ [0]) = mark.length := by
  obtain ⟨b, t, rfl, -, hascii, -⟩ := hstarts
  rcases hmark with rfl | rfl
  · refine if_neg (fun h => ?_)
    -- the first character is a blank, or that of the value
    cases blanks with
    | nil =>
        have hhead := (List.cons.inj h.2).1
        rw [hhead] at hascii
        exact absurd hascii (by decide)
    | cons x blanks =>
        have hhead := (List.cons.inj h.2).1
        have hle := (hblank x List.mem_cons_self).1
        rw [hhead] at hle
        exact absurd hle (by decide)
  · refine if_pos ⟨?_, rfl⟩
    simp only [List.length_append, List.length_cons, List.length_nil]
    omega

theorem IsMark.not_mem {mark : Str} (hmark : IsMark mark) : (0 : UInt8) ∉ mark := by
  rcases hmark with rfl | rfl
  · decide
  · decide

/-- What stands behind the mark, in the buffer with its NUL. -/
theorem drop_mark (mark before t rest : Str) :
    (mark ++ (before ++ (t ++ rest)) ++ [0]).drop mark.length = before ++ (t ++ (rest ++ [0])) := by
  rw [List.append_assoc, List.drop_left]
  simp

/-- The parser passes the mark and the blanks, and goes on with the value. -/
theorem parseBuffer_starts {mark before : Str} (hmark : IsMark mark) (hbefore : Blank before) (hstarts : Starts t)
    (rest : Str) (requireNullTerminated : Bool) :
    parseBuffer libc (mark ++ (before ++ (t ++ rest)) ++ [0]) requireNullTerminated = (do
        let (item, offset) ← parseValue libc (mark ++ (before ++ (t ++ rest)) ++ [0]) nestingLimit
          (mark.length + before.length)
        if requireNullTerminated then
          let offset := skipWhitespace (mark ++ (before ++ (t ++ rest)) ++ [0]) offset
          if (mark ++ (before ++ (t ++ rest)) ++ [0])[offset]? = some 0 then return (item, offset)
          else .error (.refused offset)
        else return (item, offset)) := by
  rw [parseBuffer, skipUtf8Bom_mark hmark hbefore hstarts rest,
    skipWhitespace_starts (drop_mark mark before t rest) hbefore hstarts]

/-- The parser returns the item exactly under the limit. The parse ends behind the item, or behind the blanks if
    the NUL is required. -/
theorem parseWithOpts_returns {t mark before after : Str} (htext : Text libc.strtod item t) (hmark : IsMark mark)
    (hbefore : Blank before) (hafter : Blank after) (requireNullTerminated : Bool) :
    Returns (item.depth ≤ nestingLimit)
      (item, mark.length + before.length + t.length + if requireNullTerminated then after.length else 0)
      (parseWithOpts libc (mark ++ (before ++ (t ++ after))) requireNullTerminated) IsRefused := by
  have hnul : (0 : UInt8) ∉ mark ++ (before ++ (t ++ after)) := by
    simp [hmark.not_mem, hbefore.not_mem, htext.not_mem, hafter.not_mem]
  have hstops : Stops (after ++ [0]) := stops_blank hafter (stops_cons (by decide))
  have hbuffer := parseBuffer_starts libc hmark hbefore htext.starts after requireNullTerminated
  have hdrop := drop_mark mark before t after
  unfold parseWithOpts
  rw [cStr_of_not_mem hnul]
  generalize mark ++ (before ++ (t ++ after)) ++ [0] = content at hdrop hbuffer
  dsimp only
  have hvalue := parseValue_text libc htext nestingLimit (mark.length + before.length) (after ++ [0])
    (drop_add_of_drop hdrop) hstops
  have hbehind := skipWhitespace_end (drop_add_of_drop (drop_add_of_drop hdrop)) (fun x hx => (hafter x hx).1)
  have hend := getElem?_of_drop (drop_add_of_drop (drop_add_of_drop (drop_add_of_drop hdrop)))
  have hreturns : Returns (item.depth ≤ nestingLimit)
      (item, mark.length + before.length + t.length + if requireNullTerminated then after.length else 0)
      (parseBuffer libc content requireNullTerminated) IsRefused := by
    rw [hbuffer]
    refine hvalue.and_then ?_
    cases requireNullTerminated with
    | false => rfl
    | true =>
        dsimp only
        rw [if_pos rfl, hbehind, if_pos hend]
        rfl
  refine ⟨fun hle => ?_, fun hlt => ?_⟩
  · rw [hreturns.1 hle]
    rfl
  · obtain ⟨e, ⟨p, rfl⟩, hr⟩ := hreturns.2 hlt
    rw [hr]
    exact ⟨_, ⟨_, rfl⟩, rfl⟩

end CJson
end AstraeaGateway
