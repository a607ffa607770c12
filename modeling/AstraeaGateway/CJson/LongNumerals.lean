import AstraeaGateway.CJson.Reads

/-!
# `CJson.LongNumerals` — numerals that `parse_number` has no room for

`parse_number` copies at most 63 characters. Of a longer numeral it reads the first 63, and the parser goes on
inside the numeral (`Inside`), where no comma, bracket, brace or end can be. So a text in which such a numeral comes
up is refused, wherever it stands; only where the text starts with it, and the end is not asked for, is it misread.
`every_text_read` has both: the texts that are read, and those that are not.
-/

namespace AstraeaGateway
namespace CJson

open Checked Json Http

variable {α ν : Type} {content rest blanks t : Str} {offset : Nat} {b : UInt8}

/-! ## Behind a part of a numeral -/

/-- The parser has stopped in front of a character of a numeral. -/
def Inside (content : Str) (offset : Nat) : Prop :=
  ∃ b rest, content.drop offset = b :: rest ∧ isNumberChar b = true

/-- A number character is no blank and no NUL. -/
theorem lt_of_isNumberChar (h : isNumberChar b = true) : 32 < b := by
  have hall : ∀ n < 256, isNumberChar (UInt8.ofNat n) = true → 32 < UInt8.ofNat n := by decide +kernel
  have hb := hall b.toNat b.toNat_lt
  rw [UInt8.ofNat_toNat] at hb
  exact hb h

/-- No blank is skipped there, -/
theorem Inside.stays (h : Inside content offset) : skipWhitespace content offset = offset := by
  obtain ⟨b, rest, hdrop, hb⟩ := h
  have hnoBlank : content.drop offset = [] ++ b :: rest := hdrop
  exact skipWhitespace_of_drop hnoBlank nofun (lt_of_isNumberChar hb)

/-- and neither a list nor the text goes on or ends there. -/
theorem Inside.ne (h : Inside content offset) (hb : isNumberChar b = false) : content[offset]? ≠ some b := by
  obtain ⟨x, rest, hdrop, hx⟩ := h
  rw [getElem?_of_drop hdrop]
  intro heq
  rw [Option.some.inj heq, hb] at hx
  cases hx

/-- What `parse_number` takes for a numeral, longer than the bytes that it copies it to. -/
structure LongNumeral (t : Str) : Prop where
  chars : ∀ b ∈ t, isNumberChar b = true
  start : ∃ b rest, t = b :: rest ∧ startsNumber b = true
  long  : 63 < t.length

theorem LongNumeral.starts (h : LongNumeral t) : Starts t := by
  obtain ⟨b, rest, rfl, hstart⟩ := h.start
  exact ⟨b, rest, rfl, starts_of_startsNumber hstart⟩

/-- Of a longer numeral only the first 63 characters are handed to `strtod`. -/
theorem LongNumeral.copied (h : LongNumeral t) (hdrop : content.drop offset = t ++ rest) :
    ((content.drop offset).take 63).takeWhile isNumberChar = t.take 63 := by
  rw [hdrop, List.take_append_of_le_length (Nat.le_of_lt h.long), List.takeWhile_eq_self_iff.mpr]
  exact fun b hb => h.chars b (List.mem_of_mem_take hb)

variable (libc : Libc ν)

/-- **A longer numeral** is read as a number, if at all, up to a character of the numeral itself. -/
theorem parseNumber_long (h : LongNumeral t) (hdrop : content.drop offset = t ++ rest) :
    (∀ x n, libc.strtod (t.take 63) = some (x, n) →
      parseNumber libc content offset = .ok (x, offset + n) ∧ Inside content (offset + n)) ∧
    (libc.strtod (t.take 63) = none → parseNumber libc content offset = .error (.refused offset)) := by
  have hcopied := h.copied hdrop
  constructor
  · intro x n hread
    refine ⟨by rw [parseNumber, hcopied, hread], ?_⟩
    -- `strtod` reads no more than it is given
    have hn : n < t.length := by
      have hle := (libc.strtod_le hread).2
      have hlong := h.long
      rw [List.length_take] at hle
      omega
    refine ⟨t[n], t.drop (n + 1) ++ rest, ?_, h.chars _ (List.getElem_mem hn)⟩
    rw [← List.drop_drop, hdrop, List.drop_append_of_le_length (Nat.le_of_lt hn), List.drop_eq_getElem_cons hn,
      List.cons_append]
  · intro hnone
    rw [parseNumber, hcopied, hnone]

/-! ## Lists -/

/-- There is something left to read. -/
theorem lt_length_of_drop {u : Str} (hdrop : content.drop offset = u) (hne : u ≠ []) : offset < content.length := by
  refine Nat.lt_of_not_le (fun hle => hne ?_)
  rw [← hdrop]
  exact List.drop_eq_nil_iff.mpr hle

theorem Starts.ne_nil (h : Starts t) : t ≠ [] := by
  obtain ⟨b, rest, rfl, -⟩ := h
  exact List.cons_ne_nil b rest

/-- What is read, if anything, ends inside a numeral. -/
def Misreads (content : Str) (r : Parsed (α × Nat)) : Prop := Sat r (fun x => Inside content x.2) IsRefused

variable {value : Nat → Parsed (α × Nat)} {c : α → Prop} {fuel : Nat}

/-- A value that is misread wherever it stands, and the blanks in front of it. -/
structure MisreadValue (content : Str) (value : Nat → Parsed (α × Nat)) (blanks t rest : Str) : Prop where
  blank   : Blank blanks
  starts  : Starts t
  misread : ∀ o, content.drop o = t ++ rest → Misreads content (value o)

theorem MisreadValue.behind_blanks (h : MisreadValue content value blanks t rest)
    (hdrop : content.drop offset = blanks ++ (t ++ rest)) :
    Misreads content (value (skipWhitespace content offset)) := by
  rw [skipWhitespace_starts hdrop h.blank h.starts]
  exact h.misread _ (drop_add_of_drop hdrop)

/-- The elements in front of one that is misread, each with its comma. -/
def elementsBefore (elements : List (Element α)) : Str := elements.flatMap (fun e => e.whole ++ [comma])

def membersBefore (members : List (Member α)) : Str := members.flatMap (fun m => m.whole ++ [comma])

/-- **The loop over the elements** comes to the one that is misread, and returns from inside of it. -/
theorem parseElements_misreads (elements : List (Element α)) (hblanks : ∀ e ∈ elements, e.Blanks)
    (hstarts : ∀ e ∈ elements, Starts e.text) (h : ∀ e ∈ elements, Reads content value (c e.value) e.value e.text)
    (hlong : MisreadValue content value blanks t rest)
    (hdrop : content.drop (offset + 1) = elementsBefore elements ++ (blanks ++ (t ++ rest)))
    (hfuel : content.length ≤ fuel + offset) : Misreads content (parseElements value content fuel offset) := by
  have hlt : offset + 1 < content.length := lt_length_of_drop hdrop (by simp [hlong.starts.ne_nil])
  induction elements generalizing offset fuel with
  | nil =>
      obtain ⟨fuel, rfl⟩ := Nat.exists_eq_succ_of_ne_zero (show fuel ≠ 0 by omega)
      have hnext : content.drop (offset + 1) = blanks ++ (t ++ rest) := hdrop
      rw [parseElements]
      refine Sat.bind (hlong.behind_blanks hnext) (fun x hx => ?_)
      dsimp only
      rw [hx.stays, if_neg (hx.ne rfl)]
      exact hx
  | cons e elements ih =>
      obtain ⟨heblanks, hblanks⟩ := List.forall_mem_cons.mp hblanks
      obtain ⟨hestarts, hstarts⟩ := List.forall_mem_cons.mp hstarts
      obtain ⟨he, h⟩ := List.forall_mem_cons.mp h
      have hfirst : content.drop (offset + 1)
          = e.whole ++ comma :: (elementsBefore elements ++ (blanks ++ (t ++ rest))) := by
        rw [hdrop, elementsBefore, List.flatMap_cons]
        simp [elementsBefore]
      obtain ⟨o, hvalue, hskip, hcomma⟩ := he.element heblanks hestarts hfirst (by decide) (by decide)
      have hrest := drop_succ_of_drop (drop_add_of_drop hfirst)
      rw [← hskip] at hrest hcomma
      obtain ⟨fuel, rfl⟩ := Nat.exists_eq_succ_of_ne_zero (show fuel ≠ 0 by omega)
      have hin : skipWhitespace content o + 1 < content.length :=
        lt_length_of_drop hrest (by simp [hlong.starts.ne_nil])
      rw [parseElements]
      refine Sat.bind hvalue.sat (fun x hx => ?_)
      subst hx
      dsimp only
      rw [if_pos hcomma]
      exact Sat.bind (ih hblanks hstarts h hrest (by omega) hin) (fun x hx => hx)

/-- **An array** with such an element is refused. -/
theorem parseArray_refused (elements : List (Element α)) (hblanks : ∀ e ∈ elements, e.Blanks)
    (hstarts : ∀ e ∈ elements, Starts e.text) (h : ∀ e ∈ elements, Reads content value (c e.value) e.value e.text)
    (hlong : MisreadValue content value blanks t rest)
    (hdrop : content.drop offset = openBracket :: (elementsBefore elements ++ (blanks ++ (t ++ rest)))) :
    Sat (parseArray value content offset) (fun _ => False) IsRefused := by
  have hloop := parseElements_misreads elements hblanks hstarts h hlong (drop_succ_of_drop hdrop)
    (Nat.le_add_right content.length offset)
  obtain ⟨before, b, tail, hhead, hbefore, hlt, hne⟩ : ∃ before b tail,
      elementsBefore elements ++ (blanks ++ (t ++ rest)) = before ++ b :: tail ∧ Blank before ∧ 32 < b ∧
        b ≠ closeBracket := by
    cases elements with
    | nil =>
        obtain ⟨b, tail, rfl, hlt, -, hne, -⟩ := hlong.starts
        exact ⟨blanks, b, tail ++ rest, rfl, hlong.blank, hlt, hne⟩
    | cons e elements =>
        obtain ⟨b, tail, htext, hlt, -, hne, -⟩ := hstarts e List.mem_cons_self
        refine ⟨e.before, b, tail ++ (e.after ++ comma :: (elementsBefore elements ++ (blanks ++ (t ++ rest)))), ?_,
          (hblanks e List.mem_cons_self).before, hlt, hne⟩
        simp [elementsBefore, Element.whole, htext]
  rw [hhead] at hdrop
  rw [parseArray_open hdrop hbefore hlt hne]
  refine Sat.bind hloop (fun x hx => ?_)
  dsimp only
  rw [if_neg (hx.ne rfl)]
  exact ⟨_, rfl⟩

/-- A name, and a value that is misread. -/
theorem parseMember_misreads {before name text after : Str} (hbefore : Blank before) (hname : Body name text)
    (hafter : Blank after) (hlong : MisreadValue content value blanks t rest)
    (hdrop : content.drop (offset + 1) = before ++ (quoted text ++ (after ++ colon :: (blanks ++ (t ++ rest))))) :
    Misreads content (parseMember value content offset) := by
  have hskip := skipWhitespace_starts hdrop hbefore (starts_quoted text)
  have hstring : content.drop (offset + 1 + before.length)
      = quote :: (text ++ quote :: (after ++ colon :: (blanks ++ (t ++ rest)))) := by
    rw [drop_add_of_drop hdrop]
    simp [quoted]
  have hparse := parseString_body hname hstring
  have hbehind := drop_add_of_drop (drop_add_of_drop hdrop)
  have hlen : offset + 1 + before.length + 1 + text.length + 1 = offset + 1 + before.length + (quoted text).length := by
    simp only [quoted, List.length_append, List.length_cons, List.length_nil]
    omega
  rw [hlen] at hparse
  obtain ⟨hskip2, hcolon⟩ := skipWhitespace_behind hbehind hafter (by decide)
  have hnext := drop_succ_of_drop (drop_add_of_drop hbehind)
  rw [← hskip2] at hcolon hnext
  rw [parseMember, hskip, bind_of_ok hparse]
  dsimp only
  rw [if_pos hcolon]
  refine Sat.bind (hlong.behind_blanks hnext) (fun x hx => ?_)
  rw [hx.stays]
  exact hx

/-- **The loop over the members** comes to the one that is misread, and returns from inside of it. -/
theorem parseMembers_misreads {before name text after : Str} (members : List (Member α))
    (hblanks : ∀ m ∈ members, m.Blanks) (hnames : ∀ m ∈ members, Body m.name m.text)
    (hstarts : ∀ m ∈ members, Starts m.element.text)
    (h : ∀ m ∈ members, Reads content value (c m.element.value) m.element.value m.element.text)
    (hbefore : Blank before) (hname : Body name text) (hafter : Blank after)
    (hlong : MisreadValue content value blanks t rest)
    (hdrop : content.drop (offset + 1) = membersBefore members
      ++ (before ++ (quoted text ++ (after ++ colon :: (blanks ++ (t ++ rest))))))
    (hfuel : content.length ≤ fuel + offset) : Misreads content (parseMembers value content fuel offset) := by
  have hlt : offset + 1 < content.length := lt_length_of_drop hdrop (by simp)
  induction members generalizing offset fuel with
  | nil =>
      obtain ⟨fuel, rfl⟩ := Nat.exists_eq_succ_of_ne_zero (show fuel ≠ 0 by omega)
      rw [parseMembers]
      refine Sat.bind (parseMember_misreads hbefore hname hafter hlong hdrop) (fun x hx => ?_)
      dsimp only
      rw [if_neg (hx.ne rfl)]
      exact hx
  | cons m members ih =>
      obtain ⟨hmblanks, hblanks⟩ := List.forall_mem_cons.mp hblanks
      obtain ⟨hmname, hnames⟩ := List.forall_mem_cons.mp hnames
      obtain ⟨hmstarts, hstarts⟩ := List.forall_mem_cons.mp hstarts
      obtain ⟨hm, h⟩ := List.forall_mem_cons.mp h
      have hfirst : content.drop (offset + 1) = m.whole ++ comma :: (membersBefore members
          ++ (before ++ (quoted text ++ (after ++ colon :: (blanks ++ (t ++ rest)))))) := by
        rw [hdrop, membersBefore, List.flatMap_cons]
        simp [membersBefore]
      obtain ⟨hmember, hcomma⟩ := parseMember_text hmblanks hmname hmstarts hm hfirst (by decide) (by decide)
      have hrest := drop_succ_of_drop (drop_add_of_drop hfirst)
      obtain ⟨fuel, rfl⟩ := Nat.exists_eq_succ_of_ne_zero (show fuel ≠ 0 by omega)
      have hin : offset + 1 + m.whole.length + 1 < content.length := lt_length_of_drop hrest (by simp)
      rw [parseMembers]
      refine Sat.bind hmember.sat (fun x hx => ?_)
      subst hx
      dsimp only
      rw [if_pos hcomma]
      exact Sat.bind (ih hblanks hnames hstarts h hrest (by omega) hin) (fun x hx => hx)

/-- **An object** with such a member is refused. -/
theorem parseObject_refused {before name text after : Str} (members : List (Member α))
    (hblanks : ∀ m ∈ members, m.Blanks) (hnames : ∀ m ∈ members, Body m.name m.text)
    (hstarts : ∀ m ∈ members, Starts m.element.text)
    (h : ∀ m ∈ members, Reads content value (c m.element.value) m.element.value m.element.text)
    (hbefore : Blank before) (hname : Body name text) (hafter : Blank after)
    (hlong : MisreadValue content value blanks t rest)
    (hdrop : content.drop offset = openBrace :: (membersBefore members
      ++ (before ++ (quoted text ++ (after ++ colon :: (blanks ++ (t ++ rest))))))) :
    Sat (parseObject value content offset) (fun _ => False) IsRefused := by
  have hloop := parseMembers_misreads members hblanks hnames hstarts h hbefore hname hafter hlong
    (drop_succ_of_drop hdrop) (Nat.le_add_right content.length offset)
  obtain ⟨blanks', tail, hhead, hblanks'⟩ : ∃ blanks' tail, membersBefore members
      ++ (before ++ (quoted text ++ (after ++ colon :: (blanks ++ (t ++ rest))))) = blanks' ++ quote :: tail ∧
        Blank blanks' := by
    cases members with
    | nil => exact ⟨before, _, rfl, hbefore⟩
    | cons m members =>
        refine ⟨m.before, m.text ++ quote :: (m.after ++ colon :: (m.element.whole ++ comma :: (membersBefore members
          ++ (before ++ (quoted text ++ (after ++ colon :: (blanks ++ (t ++ rest)))))))), ?_,
          (hblanks m List.mem_cons_self).before⟩
        simp [membersBefore, Member.whole, quoted]
  rw [hhead] at hdrop
  rw [parseObject_open hdrop hblanks' (by decide) (by decide)]
  refine Sat.bind hloop (fun x hx => ?_)
  dsimp only
  rw [if_neg (hx.ne rfl)]
  exact ⟨_, rfl⟩

/-! ## Values -/

/-- The text of a value up to a numeral that is too long: the numeral itself, or a list that is well formed up to
    there. -/
inductive Overlong (strtod : Str → Option (ν × Nat)) : Str → Prop
  | numeral {t : Str} (h : LongNumeral t) : Overlong strtod t
  | array {elements : List (Element (Item ν))} {blanks t : Str} (hblanks : ∀ e ∈ elements, e.Blanks)
      (h : ∀ e ∈ elements, Text strtod e.value e.text) (hblank : Blank blanks) (ht : Overlong strtod t) :
      Overlong strtod (openBracket :: (elementsBefore elements ++ (blanks ++ t)))
  | object {members : List (Member (Item ν))} {before name text after blanks t : Str}
      (hblanks : ∀ m ∈ members, m.Blanks) (hnames : ∀ m ∈ members, Body m.name m.text)
      (h : ∀ m ∈ members, Text strtod m.element.value m.element.text) (hbefore : Blank before)
      (hname : Body name text) (hafter : Blank after) (hblank : Blank blanks) (ht : Overlong strtod t) :
      Overlong strtod (openBrace :: (membersBefore members
        ++ (before ++ (quoted text ++ (after ++ colon :: (blanks ++ t))))))

theorem Overlong.starts {strtod : Str → Option (ν × Nat)} (h : Overlong strtod t) : Starts t := by
  cases h with
  | numeral h => exact h.starts
  | array => exact ⟨_, _, rfl, by decide, by decide, by decide, by decide⟩
  | object => exact ⟨_, _, rfl, by decide, by decide, by decide, by decide⟩

/-- **`parse_value` on such a text**, whatever stands behind it: a list is refused, and of a numeral a part is read,
    if anything. -/
theorem parseValue_overlong (h : Overlong libc.strtod t) (levels : Nat) (hdrop : content.drop offset = t ++ rest) :
    Sat (parseValue libc content levels offset) (fun x => LongNumeral t ∧ Inside content x.2) IsRefused := by
  induction h generalizing levels offset rest with
  | @numeral t h =>
      obtain ⟨hread, hnone⟩ := parseNumber_long libc h hdrop
      obtain ⟨b, tail, heq, hstart⟩ := h.start
      have hhead : content.drop offset = b :: (tail ++ rest) := by rw [hdrop, heq, List.cons_append]
      rw [parseValue_number libc hhead hstart levels]
      cases hstrtod : libc.strtod (t.take 63) with
      | none =>
          rw [hnone hstrtod]
          exact ⟨offset, rfl⟩
      | some x =>
          obtain ⟨hnumber, hinside⟩ := hread x.1 x.2 hstrtod
          rw [hnumber]
          exact ⟨h, hinside⟩
  | @array elements blanks t hblanks h hblank ht ih =>
      rw [List.cons_append, List.append_assoc, List.append_assoc] at hdrop
      rw [parseValue_of_head libc hdrop (by decide) (by decide) (by decide)]
      cases levels with
      | zero => exact ⟨offset, rfl⟩
      | succ levels =>
          have hlong : MisreadValue content (parseValue libc content levels) blanks t rest :=
            ⟨hblank, ht.starts, fun o ho => (ih levels ho).mono (fun _ hx => hx.2) (fun _ he => he)⟩
          exact asItem_sat (parseArray_refused (c := fun item => item.depth ≤ levels) elements hblanks
            (fun e he => (h e he).starts) (fun e he => parseValue_text libc (h e he) levels) hlong hdrop)
  | @object members before name text after blanks t hblanks hnames h hbefore hname hafter hblank ht ih =>
      have hdrop' : content.drop offset = openBrace :: (membersBefore members
          ++ (before ++ (quoted text ++ (after ++ colon :: (blanks ++ (t ++ rest)))))) := by
        rw [hdrop]
        simp
      rw [parseValue_of_head libc hdrop' (by decide) (by decide) (by decide)]
      cases levels with
      | zero => exact ⟨offset, rfl⟩
      | succ levels =>
          have hlong : MisreadValue content (parseValue libc content levels) blanks t rest :=
            ⟨hblank, ht.starts, fun o ho => (ih levels ho).mono (fun _ hx => hx.2) (fun _ he => he)⟩
          exact asItem_sat (parseObject_refused (c := fun item => item.depth ≤ levels) members hblanks hnames
            (fun m hm => (h m hm).starts) (fun m hm => parseValue_text libc (h m hm) levels) hbefore hname hafter
            hlong hdrop')

/-! ## The whole text -/

/-- **A text that comes to a numeral that is too long** is refused, wherever the numeral stands; if it is the whole
    text, only where the end is asked for. -/
theorem parseWithOpts_overlong {mark before : Str} (h : Overlong libc.strtod t) (hmark : IsMark mark)
    (hbefore : Blank before) (hnul : (0 : UInt8) ∉ t ++ rest) (requireNullTerminated : Bool)
    (hwhole : LongNumeral t → requireNullTerminated = true) :
    ∃ p, parseWithOpts libc (mark ++ (before ++ (t ++ rest))) requireNullTerminated = .error (.refused p) := by
  have hfree : (0 : UInt8) ∉ mark ++ (before ++ (t ++ rest)) := by
    rw [List.mem_append, List.mem_append]
    exact not_or_intro hmark.not_mem (not_or_intro hbefore.not_mem hnul)
  have hdrop := drop_add_of_drop (drop_mark mark before t rest)
  have hbuffer : Sat (parseBuffer libc (mark ++ (before ++ (t ++ rest)) ++ [0]) requireNullTerminated)
      (fun _ => False) IsRefused := by
    rw [parseBuffer_starts libc hmark hbefore h.starts]
    refine Sat.bind (parseValue_overlong libc h nestingLimit hdrop) (fun x hx => ?_)
    obtain ⟨hlong, hinside⟩ := hx
    dsimp only
    rw [if_pos (hwhole hlong), hinside.stays, if_neg (hinside.ne rfl)]
    exact ⟨_, rfl⟩
  unfold parseWithOpts
  rw [cStr_of_not_mem hfree]
  dsimp only
  cases hparse : parseBuffer libc (mark ++ (before ++ (t ++ rest)) ++ [0]) requireNullTerminated with
  | ok x => exact (hbuffer.of_ok hparse).elim
  | error e =>
      obtain ⟨p, rfl⟩ := hbuffer.of_error hparse
      exact ⟨_, rfl⟩

/-- Otherwise such a numeral is misread: as the number that its first 63 characters are, with an end inside of it. -/
theorem parseWithOpts_misreads {mark before : Str} (h : LongNumeral t) (hmark : IsMark mark) (hbefore : Blank before)
    (hnul : (0 : UInt8) ∉ t ++ rest) {x : ν} {n : Nat} (hread : libc.strtod (t.take 63) = some (x, n)) :
    parseWithOpts libc (mark ++ (before ++ (t ++ rest))) false
      = .ok (.number x, mark.length + before.length + n) := by
  have hfree : (0 : UInt8) ∉ mark ++ (before ++ (t ++ rest)) := by
    rw [List.mem_append, List.mem_append]
    exact not_or_intro hmark.not_mem (not_or_intro hbefore.not_mem hnul)
  have hdrop := drop_add_of_drop (drop_mark mark before t rest)
  obtain ⟨b, tail, heq, hstart⟩ := h.start
  have hhead : (mark ++ (before ++ (t ++ rest)) ++ [0]).drop (mark.length + before.length)
      = b :: (tail ++ (rest ++ [0])) := by
    rw [hdrop, heq, List.cons_append]
  have hnumber := ((parseNumber_long libc h hdrop).1 x n hread).1
  unfold parseWithOpts
  rw [cStr_of_not_mem hfree]
  dsimp only
  rw [parseBuffer_starts libc hmark hbefore h.starts, parseValue_number libc hhead hstart, hnumber]
  rfl

/-- **Every text of an item is read as the item**, if it is nested no deeper than `CJSON_NESTING_LIMIT`, and
    refused otherwise; a text that comes to a numeral of more than 63 characters is refused, or misread if it is the
    numeral and the end is not asked for. -/
theorem every_text_read (libc : Libc ν) {mark before : Str} (hmark : IsMark mark) (hbefore : Blank before) :
    (∀ item t after requireNullTerminated, Text libc.strtod item t → Blank after →
      (item.depth ≤ nestingLimit → parseWithOpts libc (mark ++ (before ++ (t ++ after))) requireNullTerminated
        = .ok (item, mark.length + before.length + t.length + if requireNullTerminated then after.length else 0)) ∧
      (nestingLimit < item.depth →
        ∃ p, parseWithOpts libc (mark ++ (before ++ (t ++ after))) requireNullTerminated = .error (.refused p))) ∧
    (∀ t rest requireNullTerminated, Overlong libc.strtod t → (0 : UInt8) ∉ t ++ rest →
      (LongNumeral t → requireNullTerminated = true) →
      ∃ p, parseWithOpts libc (mark ++ (before ++ (t ++ rest))) requireNullTerminated = .error (.refused p)) ∧
    (∀ t rest x n, LongNumeral t → (0 : UInt8) ∉ t ++ rest → libc.strtod (t.take 63) = some (x, n) →
      parseWithOpts libc (mark ++ (before ++ (t ++ rest))) false
        = .ok (.number x, mark.length + before.length + n)) := by
  refine ⟨fun item t after requireNullTerminated htext hafter => ?_, ?_, ?_⟩
  · obtain ⟨hok, hrefused⟩ := parseWithOpts_returns libc htext hmark hbefore hafter requireNullTerminated
    refine ⟨hok, fun hlt => ?_⟩
    obtain ⟨e, ⟨p, rfl⟩, hr⟩ := hrefused (Nat.not_le.mpr hlt)
    exact ⟨p, hr⟩
  · exact fun t rest required h hnul hwhole => parseWithOpts_overlong libc h hmark hbefore hnul required hwhole
  · exact fun t rest x n h hnul hread => parseWithOpts_misreads libc h hmark hbefore hnul hread

/-- A numeral behind a blank, and a string that starts with a pair of surrogates. -/
def surrogateElements : List (Element (Item Nat)) :=
  [⟨.number 7, [32], Decimal.digits 7, []⟩,
   ⟨.string (cStr (String.utf8EncodeChar '😀' ++ lit "a")), [], quoted (lit "\\ud83D\\uDE00a"), []⟩]

theorem every_text_read_surrogates :
    parseWithOpts Libc.naturals (lit "[ 7,\"\\ud83D\\uDE00a\"]") true
      = .ok (.array [.number 7, .string [0xF0, 0x9F, 0x98, 0x80, 97]], 20) := by
  have hhigh : FourDigits (lit "d83D") 0xD83D := FourDigits.mk (w := 13) (x := 8) (y := 3) (z := 13) rfl rfl rfl rfl
  have hlow : FourDigits (lit "DE00") 0xDE00 := FourDigits.mk (w := 13) (x := 14) (y := 0) (z := 0) rfl rfl rfl rfl
  have hchar : 0xD800 + ('😀'.toNat - 0x10000) / 1024 = 0xD83D ∧ 0xDC00 + ('😀'.toNat - 0x10000) % 1024 = 0xDE00 := by
    decide +kernel
  have hbody : Body (String.utf8EncodeChar '😀' ++ lit "a") (lit "\\ud83D\\uDE00a") :=
    Body.pair (by decide) (hchar.1 ▸ hhigh) (hchar.2 ▸ hlow) (Body.plain (by decide) (by decide) (by decide) Body.nil)
  have hblanks : ∀ e ∈ surrogateElements, e.Blanks :=
    List.forall_mem_cons.mpr ⟨⟨List.forall_mem_singleton.mpr (by decide), blank_nil⟩,
      List.forall_mem_singleton.mpr ⟨blank_nil, blank_nil⟩⟩
  have helements : ∀ e ∈ surrogateElements, Text naturalPrefix e.value e.text :=
    List.forall_mem_cons.mpr ⟨Text.number (numeral_digits (by decide)),
      List.forall_mem_singleton.mpr (Text.string hbody)⟩
  have htext := Text.array (List.cons_ne_nil _ _) hblanks helements
  have hread := ((every_text_read Libc.naturals (Or.inl rfl) blank_nil).1 _ _ _ true htext blank_nil).1 (by decide)
  have hwhole : lit "[ 7,\"\\ud83D\\uDE00a\"]" = [] ++ ([] ++
      ((openBracket :: (separated (surrogateElements.map Element.whole) ++ [closeBracket])) ++ [])) := by
    decide +kernel
  rw [hwhole]
  exact hread

end CJson
end AstraeaGateway
