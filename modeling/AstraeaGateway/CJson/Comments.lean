import AstraeaGateway.CJson.Minify
import AstraeaGateway.CJson.Reads

/-!
# `CJson.Comments` — `cJSON_Minify` keeps the item

A text with comments in it is minified to a text of the same item, which `cJSON_Parse` then reads. `Scans` is the
scanner on a part of a text, wherever it stands; `stripped` is what is kept of a part that leaves nothing open.
-/

namespace AstraeaGateway
namespace CJson

open Checked Json Http

variable {mode mode' mode'' : Mode} {b : UInt8} {s s' t t' u : Str}

/-! ## Parts of a text -/

/-- In `mode`, `t'` is kept of `t`, and the scanner is in `mode'` behind it, whatever comes there. -/
def Scans (mode : Mode) (t t' : Str) (mode' : Mode) : Prop :=
  ∀ rest, minified mode (t ++ rest) = (t' ++ (minified mode' rest).1, (minified mode' rest).2)

theorem Scans.nil (mode : Mode) : Scans mode [] [] mode := fun _ => rfl

/-- **Part by part.** -/
theorem Scans.append (hs : Scans mode s s' mode') (ht : Scans mode' t t' mode'') :
    Scans mode (s ++ t) (s' ++ t') mode'' := by
  intro rest
  rw [List.append_assoc, hs, ht, List.append_assoc]

theorem Scans.copied (hstep : ∀ next, mode.step b next = (true, mode')) : Scans mode [b] [b] mode' := by
  intro rest
  show minified mode (b :: rest) = _
  rw [minified, hstep]
  rfl

theorem Scans.dropped (hstep : ∀ next, mode.step b next = (false, mode')) : Scans mode [b] [] mode' := by
  intro rest
  show minified mode (b :: rest) = _
  rw [minified, hstep]
  rfl

/-! ## Tokens -/

/-- A character that is kept outside of strings, and opens nothing. -/
def Kept (b : UInt8) : Prop := isSpace b = false ∧ b ≠ slash ∧ b ≠ quote

instance (b : UInt8) : Decidable (Kept b) := inferInstanceAs (Decidable (_ ∧ _))

theorem Kept.step (h : Kept b) (next : Option UInt8) : Mode.step b next .text = (true, .text) := by
  obtain ⟨hspace, hslash, hquote⟩ := h
  simp [Mode.step, hspace, hslash, hquote]

/-- A part without blanks, strings and comments is kept as it is. -/
theorem scans_kept (h : ∀ b ∈ t, Kept b) : Scans .text t t .text := by
  induction t with
  | nil => exact Scans.nil .text
  | cons b t ih =>
      obtain ⟨hb, ht⟩ := List.forall_mem_cons.mp h
      exact (Scans.copied hb.step).append (ih ht)

theorem kept_of_isNumberChar (h : isNumberChar b = true) : Kept b := by
  have hall : ∀ n < 256, isNumberChar (UInt8.ofNat n) = true → Kept (UInt8.ofNat n) := by decide +kernel
  have hb := hall b.toNat b.toNat_lt
  rw [UInt8.ofNat_toNat] at hb
  exact hb h

/-- Inside of a string literal. -/
theorem scans_plain (h : ∀ b ∈ t, b ≠ quote ∧ b ≠ backslash) : Scans .string t t .string := by
  induction t with
  | nil => exact Scans.nil .string
  | cons b t ih =>
      obtain ⟨⟨hquote, hback⟩, ht⟩ := List.forall_mem_cons.mp h
      have hstep : ∀ next, Mode.step b next .string = (true, .string) :=
        fun _ => (if_neg hquote).trans (if_neg hback)
      exact (Scans.copied hstep).append (ih ht)

/-- An escape sequence: the character behind the backslash is kept as it is. -/
theorem scans_escape (e : UInt8) : Scans .string [backslash, e] [backslash, e] .string := by
  have hback : Scans .string [backslash] [backslash] .escape := Scans.copied (fun _ => rfl)
  exact hback.append (Scans.copied (fun _ => rfl))

theorem FourDigits.scans {digits : Str} {n : Nat} (h : FourDigits digits n) : Scans .string digits digits .string :=
  scans_plain (fun b hb => ⟨(h.plain b hb).1, (h.plain b hb).2.1⟩)

/-- Inside its quotes a string is kept as it is, with all its escapes. -/
theorem Body.scans (h : Body s t) : Scans .string t t .string := by
  induction h with
  | nil => exact Scans.nil .string
  | plain hquote hback _ _ ih =>
      exact (scans_plain (List.forall_mem_singleton.mpr ⟨hquote, hback⟩)).append ih
  | short _ _ ih => exact (scans_escape _).append ih
  | unicode hdigits _ ih => exact (scans_escape _).append (hdigits.scans.append ih)
  | pair _ hhigh hlow _ ih =>
      exact (scans_escape _).append (hhigh.scans.append ((scans_escape _).append (hlow.scans.append ih)))

/-- A string literal is kept as it is. -/
theorem Body.scans_quoted (h : Body s t) : Scans .text (quoted t) (quoted t) .text := by
  have hopen : Scans .text [quote] [quote] .string := Scans.copied (fun _ => rfl)
  exact hopen.append (h.scans.append (Scans.copied (fun _ => rfl)))

/-! ## Whole values -/

/-- What is kept of a text. -/
def stripped (t : Str) : Str := (minified .text t).1

/-- Nothing is left open behind `t`, and nothing in it depends on what comes behind. -/
def Separate (t : Str) : Prop := Scans .text t (stripped t) .text

/-- `t` stands alone, and `t'` is kept of it. -/
theorem Scans.stripped (h : Scans .text t t' .text) : Separate t ∧ CJson.stripped t = t' := by
  have ht : CJson.stripped t = t' := by
    have hnil := congrArg Prod.fst (h [])
    rw [List.append_nil] at hnil
    exact hnil.trans (List.append_nil t')
  refine ⟨?_, ht⟩
  rw [Separate, ht]
  exact h

/-- What is kept of two parts is what is kept of each. -/
theorem Separate.append (hs : Separate s) (ht : Separate t) :
    Separate (s ++ t) ∧ stripped (s ++ t) = stripped s ++ stripped t := (Scans.append hs ht).stripped

theorem Separate.cons (hb : Kept b) (ht : Separate t) : Separate (b :: t) ∧ stripped (b :: t) = b :: stripped t :=
  ((Scans.copied hb.step).append ht).stripped

theorem separate_kept (h : ∀ b ∈ t, Kept b) : Separate t ∧ stripped t = t := (scans_kept h).stripped

/-- Of blanks only blanks are kept. -/
theorem Blank.separate (h : Blank t) : Separate t ∧ Blank (stripped t) := by
  induction t with
  | nil => exact ⟨Scans.nil .text, blank_nil⟩
  | cons b t ih =>
      obtain ⟨hb, ht⟩ := List.forall_mem_cons.mp h
      obtain ⟨hseparate, hblank⟩ := ih ht
      by_cases hspace : isSpace b = true
      · have hstep : ∀ next, Mode.step b next .text = (false, .text) := fun _ => if_pos hspace
        obtain ⟨hcons, heq⟩ := ((Scans.dropped hstep).append hseparate).stripped
        refine ⟨hcons, ?_⟩
        have heq : stripped (b :: t) = stripped t := heq
        rw [heq]
        exact hblank
      · have hkept : Kept b := by
          refine ⟨Bool.eq_false_iff.mpr hspace, ?_, ?_⟩
          · rintro rfl
            exact absurd hb.1 (by decide)
          · rintro rfl
            exact absurd hb.1 (by decide)
        obtain ⟨hcons, heq⟩ := Separate.cons hkept hseparate
        rw [heq]
        exact ⟨hcons, List.forall_mem_cons.mpr ⟨hb, hblank⟩⟩

/-- Between commas. -/
theorem separate_separated {texts : List Str} (h : ∀ t ∈ texts, Separate t) :
    Separate (separated texts) ∧ stripped (separated texts) = separated (texts.map stripped) := by
  induction texts with
  | nil => exact ⟨Scans.nil .text, rfl⟩
  | cons t texts ih =>
      obtain ⟨ht, h⟩ := List.forall_mem_cons.mp h
      cases texts with
      | nil =>
          simp only [separated, List.map_cons, List.map_nil, List.intercalate_singleton]
          exact ⟨ht, trivial⟩
      | cons t' texts =>
          obtain ⟨hrest, heq⟩ := ih h
          obtain ⟨hcomma, hcommaEq⟩ := Separate.cons (b := comma) (by decide) hrest
          obtain ⟨hall, hallEq⟩ := ht.append hcomma
          have hsplit : separated (t :: t' :: texts) = t ++ comma :: separated (t' :: texts) := by
            simp [separated, List.intercalate_cons_cons]
          rw [hsplit]
          refine ⟨hall, ?_⟩
          rw [hallEq, hcommaEq, heq]
          simp [separated, List.intercalate_cons_cons]

/-- The element as it is minified. -/
def Element.stripped {α : Type} (e : Element α) : Element α :=
  ⟨e.value, CJson.stripped e.before, CJson.stripped e.text, CJson.stripped e.after⟩

/-- The member as it is minified; its name is a string literal. -/
def Member.stripped {α : Type} (m : Member α) : Member α :=
  ⟨m.name, CJson.stripped m.before, m.text, CJson.stripped m.after, m.element.stripped⟩

variable {α ν : Type}

theorem Element.Blanks.stripped {e : Element α} (h : e.Blanks) : e.stripped.Blanks where
  before := h.before.separate.2
  after := h.after.separate.2

theorem Member.Blanks.stripped {m : Member α} (h : m.Blanks) : m.stripped.Blanks where
  before := h.before.separate.2
  after := h.after.separate.2
  element := h.element.stripped

/-- An element loses its blanks, and a member too. -/
theorem Element.Blanks.whole {e : Element α} (h : e.Blanks) (ht : Separate e.text) :
    Separate e.whole ∧ CJson.stripped e.whole = e.stripped.whole := by
  obtain ⟨hend, hendEq⟩ := ht.append h.after.separate.1
  obtain ⟨hall, hallEq⟩ := h.before.separate.1.append hend
  exact ⟨hall, by rw [Element.whole, hallEq, hendEq]; rfl⟩

theorem Member.Blanks.whole {m : Member α} (h : m.Blanks) (hname : Body m.name m.text)
    (ht : Separate m.element.text) : Separate m.whole ∧ CJson.stripped m.whole = m.stripped.whole := by
  obtain ⟨helement, helementEq⟩ := h.element.whole ht
  obtain ⟨hcolon, hcolonEq⟩ := Separate.cons (b := colon) (by decide) helement
  obtain ⟨hafter, hafterEq⟩ := h.after.separate.1.append hcolon
  obtain ⟨hquoted, hquotedEq⟩ := hname.scans_quoted.stripped
  obtain ⟨hend, hendEq⟩ := hquoted.append hafter
  obtain ⟨hall, hallEq⟩ := h.before.separate.1.append hend
  exact ⟨hall, by rw [Member.whole, hallEq, hendEq, hquotedEq, hafterEq, hcolonEq, helementEq]; rfl⟩

/-- So does a list in its brackets. -/
theorem Separate.enclosed {left right : UInt8} (hleft : Kept left) (hright : Kept right) (ht : Separate t) :
    Separate (left :: (t ++ [right])) ∧
      CJson.stripped (left :: (t ++ [right])) = left :: (CJson.stripped t ++ [right]) := by
  obtain ⟨hone, honeEq⟩ := separate_kept (List.forall_mem_singleton.mpr hright)
  obtain ⟨hend, hendEq⟩ := ht.append hone
  obtain ⟨hall, hallEq⟩ := Separate.cons hleft hend
  exact ⟨hall, by rw [hallEq, hendEq, honeEq]⟩

/-- **A text is stripped to a text of the same item.** -/
theorem Text.stripped {strtod : Str → Option (ν × Nat)} {item : Item ν} (h : Text strtod item t) :
    Separate t ∧ Text strtod item (CJson.stripped t) := by
  have hbracket : Kept openBracket ∧ Kept closeBracket := by decide
  have hbrace : Kept openBrace ∧ Kept closeBrace := by decide
  induction h with
  | null =>
      obtain ⟨hseparate, heq⟩ := separate_kept (t := lit "null") (by decide +kernel)
      exact ⟨hseparate, heq.symm ▸ Text.null⟩
  | false =>
      obtain ⟨hseparate, heq⟩ := separate_kept (t := lit "false") (by decide +kernel)
      exact ⟨hseparate, heq.symm ▸ Text.false⟩
  | true =>
      obtain ⟨hseparate, heq⟩ := separate_kept (t := lit "true") (by decide +kernel)
      exact ⟨hseparate, heq.symm ▸ Text.true⟩
  | number hnumeral =>
      obtain ⟨hseparate, heq⟩ := separate_kept (fun b hb => kept_of_isNumberChar (hnumeral.chars b hb))
      exact ⟨hseparate, heq.symm ▸ Text.number hnumeral⟩
  | string hbody =>
      obtain ⟨hseparate, heq⟩ := hbody.scans_quoted.stripped
      exact ⟨hseparate, heq.symm ▸ Text.string hbody⟩
  | emptyArray hblank =>
      obtain ⟨hseparate, heq⟩ := Separate.enclosed hbracket.1 hbracket.2 hblank.separate.1
      exact ⟨hseparate, heq.symm ▸ Text.emptyArray hblank.separate.2⟩
  | @array elements hne hblanks _ ih =>
      have hwhole : ∀ e ∈ elements, Separate e.whole ∧ CJson.stripped e.whole = e.stripped.whole :=
        fun e he => (hblanks e he).whole (ih e he).1
      obtain ⟨hinner, hinnerEq⟩ := separate_separated (List.forall_mem_map.mpr (fun e he => (hwhole e he).1))
      obtain ⟨hseparate, heq⟩ := Separate.enclosed hbracket.1 hbracket.2 hinner
      have hmap : (elements.map Element.whole).map CJson.stripped
          = (elements.map Element.stripped).map Element.whole := by
        rw [List.map_map, List.map_map]
        exact List.map_congr_left (fun e he => (hwhole e he).2)
      have hvalues : (elements.map Element.stripped).map Element.value = elements.map Element.value := List.map_map
      refine ⟨hseparate, ?_⟩
      rw [heq, hinnerEq, hmap, ← hvalues]
      exact Text.array (List.map_eq_nil_iff.not.mpr hne)
        (List.forall_mem_map.mpr (fun e he => (hblanks e he).stripped))
        (List.forall_mem_map.mpr (fun e he => (ih e he).2))
  | emptyObject hblank =>
      obtain ⟨hseparate, heq⟩ := Separate.enclosed hbrace.1 hbrace.2 hblank.separate.1
      exact ⟨hseparate, heq.symm ▸ Text.emptyObject hblank.separate.2⟩
  | @object members hne hblanks hname _ ih =>
      have hwhole : ∀ m ∈ members, Separate m.whole ∧ CJson.stripped m.whole = m.stripped.whole :=
        fun m hm => (hblanks m hm).whole (hname m hm) (ih m hm).1
      obtain ⟨hinner, hinnerEq⟩ := separate_separated (List.forall_mem_map.mpr (fun m hm => (hwhole m hm).1))
      obtain ⟨hseparate, heq⟩ := Separate.enclosed hbrace.1 hbrace.2 hinner
      have hmap : (members.map Member.whole).map CJson.stripped = (members.map Member.stripped).map Member.whole := by
        rw [List.map_map, List.map_map]
        exact List.map_congr_left (fun m hm => (hwhole m hm).2)
      have hchildren : (members.map Member.stripped).map Member.child = members.map Member.child := List.map_map
      refine ⟨hseparate, ?_⟩
      rw [heq, hinnerEq, hmap, ← hchildren]
      exact Text.object (List.map_eq_nil_iff.not.mpr hne)
        (List.forall_mem_map.mpr (fun m hm => (hblanks m hm).stripped)) (List.forall_mem_map.mpr hname)
        (List.forall_mem_map.mpr (fun m hm => (ih m hm).2))

/-! ## Comments -/

/-- `Commented t u`: `u` is `t` with comments put in between any two characters outside of its string literals. A
    block comment must not hold `*/`, where the `*` of its `/*` counts, so it does not begin with a `/`: the code
    takes `/*/` for a whole comment (`minified_slashStarSlash`). -/
inductive Commented : Str → Str → Prop
  | nil : Commented [] []
  | char {b : UInt8} {t u : Str} (hslash : b ≠ slash) (hquote : b ≠ quote) (h : Commented t u) :
      Commented (b :: t) (b :: u)
  | string {s text t u : Str} (hbody : Body s text) (h : Commented t u) :
      Commented (quoted text ++ t) (quoted text ++ u)
  | line {comment t u : Str} (hline : lineFeed ∉ comment) (h : Commented t u) :
      Commented t (slash :: slash :: (comment ++ lineFeed :: u))
  | lastLine {comment : Str} (hline : lineFeed ∉ comment) : Commented [] (slash :: slash :: comment)
  | block {comment t u : Str} (hblock : ¬ [star, slash] <:+: star :: comment) (h : Commented t u) :
      Commented t (slash :: star :: (comment ++ star :: slash :: u))

theorem scans_line (h : lineFeed ∉ t) : Scans .line t [] .line := by
  induction t with
  | nil => exact Scans.nil .line
  | cons b t ih =>
      have hb : b ≠ lineFeed := fun heq => h (heq ▸ List.mem_cons_self)
      have hstep : ∀ next, Mode.step b next .line = (false, .line) := fun _ => if_neg hb
      exact (Scans.dropped hstep).append (ih (fun hmem => h (List.mem_cons_of_mem b hmem)))

/-- Up to the first `*/`. -/
theorem scans_block (h : ¬ [star, slash] <:+: t) : Scans .block (t ++ [star, slash]) [] .text := by
  induction t with
  | nil => exact fun _ => rfl
  | cons b t ih =>
      have hb : ¬ (b = star ∧ (t ++ [star, slash]).head? = some slash) := by
        rintro ⟨rfl, hhead⟩
        cases t with
        | nil => cases hhead
        | cons x t =>
            obtain rfl := Option.some.inj hhead
            exact h ⟨[], t, rfl⟩
      intro rest
      have hhead : (t ++ [star, slash] ++ rest).head? = (t ++ [star, slash]).head? := by
        cases t <;> rfl
      have hstep : Mode.step b (t ++ [star, slash] ++ rest).head? .block = (false, .block) := by
        rw [hhead]
        exact if_neg hb
      show minified .block (b :: (t ++ [star, slash] ++ rest)) = _
      rw [minified, hstep]
      exact ih (fun hpart => h (hpart.trans (List.suffix_cons b t).isInfix)) rest

/-- The first `/` of a comment is dropped, and then what stands behind it. -/
theorem scans_slash {next : UInt8} (hstep : Mode.step slash (some next) .text = (false, mode))
    (h : Scans mode (next :: t) [] mode') : Scans .text (slash :: next :: t) [] mode' := by
  intro rest
  show minified .text (slash :: next :: (t ++ rest)) = _
  rw [minified, List.head?_cons, hstep]
  exact h rest

/-- **The two kinds of comments** are dropped whole. -/
theorem scans_lineComment (h : lineFeed ∉ t) : Scans .text (slash :: slash :: t) [] .line :=
  scans_slash rfl (scans_line (List.not_mem_cons_of_ne_of_not_mem (by decide) h))

theorem scans_blockComment (h : ¬ [star, slash] <:+: star :: t) :
    Scans .text (slash :: star :: (t ++ [star, slash])) [] .text :=
  scans_slash rfl (scans_block h)

/-- **A block comment that begins with a slash** is not dropped as a whole: the search for `*/` starts at the `/*`
    itself, finds the end there, and what follows of the comment is kept with the text. -/
theorem minified_slashStarSlash (u : Str) : minified .text (slash :: star :: slash :: u) = minified .text u :=
  have hscans : Scans .text (slash :: star :: [slash]) [] .text :=
    scans_slash rfl (scans_block (t := []) (by decide))
  hscans u

example : (minify (lit "[7, /*/ 8 */ 9]")).map cStr = .ok (lit "[7,8*/9]") := by decide +kernel

/-- The same is kept of `u` as of `t`, and nothing is left open. -/
def KeptOf (t u : Str) : Prop := (minified .text u).1 = stripped t ∧ (minified .text u).2.Closed

/-- What stands in front of a text is kept or dropped by itself. -/
theorem KeptOf.behind (h : KeptOf t u) (hs : Scans .text s s' .text) : KeptOf (s ++ t) (s ++ u) := by
  obtain ⟨hout, hclosed⟩ := h
  rw [KeptOf, stripped, hs u, hs t]
  exact ⟨congrArg (s' ++ ·) hout, hclosed⟩

theorem KeptOf.behind_comment (h : KeptOf t u) (hs : Scans .text s [] .text) : KeptOf t (s ++ u) := by
  rw [KeptOf, hs u]
  exact h

/-- **Comments are dropped**, with the blanks. -/
theorem Commented.kept (h : Commented t u) : KeptOf t u := by
  induction h with
  | nil => exact ⟨rfl, Or.inl rfl⟩
  | @char b t u hslash hquote _ ih =>
      by_cases hspace : isSpace b = true
      · exact ih.behind (s := [b]) (Scans.dropped (fun _ => if_pos hspace))
      · exact ih.behind (s := [b]) (Scans.copied (Kept.step ⟨Bool.eq_false_iff.mpr hspace, hslash, hquote⟩))
  | string hbody _ ih => exact ih.behind hbody.scans_quoted
  | @line comment t u hline _ ih =>
      have hcomment : Scans .text (slash :: slash :: comment ++ [lineFeed]) [] .text :=
        (scans_lineComment hline).append (Scans.dropped (fun _ => rfl))
      have hkept := ih.behind_comment hcomment
      rwa [List.append_assoc] at hkept
  | @lastLine comment hline =>
      have hend := scans_lineComment hline []
      rw [List.append_nil] at hend
      rw [KeptOf, hend]
      exact ⟨rfl, Or.inr rfl⟩
  | @block comment t u hblock _ ih =>
      have hkept := ih.behind_comment (scans_blockComment hblock)
      have hsplit : slash :: star :: (comment ++ [star, slash]) ++ u
          = slash :: star :: (comment ++ star :: slash :: u) := by simp
      rwa [hsplit] at hkept

/-! ## `cJSON_Minify` and `cJSON_Parse` -/

theorem cStr_cStr (s : Str) : cStr (cStr s) = cStr s := cStr_of_not_mem (not_mem_cStr s)

/-- **A minified text is read as it was meant**: for each text of an item, with any blanks and comments in it,
    `cJSON_Minify` stays inside the text, and `cJSON_Parse` reads the item in what it leaves there, unless the item
    is nested too deep. -/
theorem minified_read (libc : Libc ν) {item : Item ν} {before after json : Str} (htext : Text libc.strtod item t)
    (hbefore : Blank before) (hafter : Blank after) (hjson : Commented (before ++ (t ++ after)) (cStr json)) :
    ∃ memory, minify json = .ok memory ∧
      (item.depth ≤ nestingLimit → ∃ n, parseWithOpts libc memory true = .ok (item, n)) ∧
      (nestingLimit < item.depth → ∃ p, parseWithOpts libc memory true = .error (.refused p)) := by
  obtain ⟨hout, hclosed⟩ := hjson.kept
  obtain ⟨memory, hrun, hmemory⟩ := minify_of_closed hclosed
  obtain ⟨hseparate, hstripped⟩ := htext.stripped
  obtain ⟨hend, hendEq⟩ := hseparate.append hafter.separate.1
  obtain ⟨-, hallEq⟩ := hbefore.separate.1.append hend
  have hleft : cStr memory = [] ++ (stripped before ++ (stripped t ++ stripped after)) := by
    rw [hmemory, hout, hallEq, hendEq, List.nil_append]
  have hparse : parseWithOpts libc memory true = parseWithOpts libc (cStr memory) true := by
    rw [parseWithOpts, parseWithOpts, cStr_cStr]
  obtain ⟨hok, hrefused⟩ := parseWithOpts_returns libc hstripped (Or.inl rfl) hbefore.separate.2 hafter.separate.2 true
  rw [← hleft, ← hparse] at hok hrefused
  refine ⟨memory, hrun, fun hle => ⟨_, hok hle⟩, fun hlt => ?_⟩
  obtain ⟨e, ⟨p, rfl⟩, hr⟩ := hrefused (Nat.not_le.mpr hlt)
  exact ⟨p, hr⟩

/-- A number, and a string that looks like a comment. -/
def commentElements : List (Element (Item Nat)) :=
  [⟨.number 7, [32], Decimal.digits 7, []⟩, ⟨.string (cStr (lit "//")), [32, 32], quoted (lit "//"), []⟩]

theorem minified_read_array : ∃ memory, minify (lit "[ 7, /* 8 */ \"//\"]//9") = .ok memory ∧
    ∃ n, parseWithOpts Libc.naturals memory true = .ok (.array [.number 7, .string (lit "//")], n) := by
  have hbody : Body (lit "//") (lit "//") :=
    Body.plain (by decide) (by decide) (by decide) (Body.plain (by decide) (by decide) (by decide) Body.nil)
  have hblanks : ∀ e ∈ commentElements, e.Blanks :=
    List.forall_mem_cons.mpr ⟨⟨List.forall_mem_singleton.mpr (by decide), blank_nil⟩,
      List.forall_mem_singleton.mpr ⟨List.forall_mem_cons.mpr ⟨by decide, List.forall_mem_singleton.mpr (by decide)⟩,
        blank_nil⟩⟩
  have helements : ∀ e ∈ commentElements, Text naturalPrefix e.value e.text :=
    List.forall_mem_cons.mpr ⟨Text.number (numeral_digits (by decide)),
      List.forall_mem_singleton.mpr (Text.string hbody)⟩
  have hbehind : Commented (quoted (lit "//") ++ [closeBracket])
      (quoted (lit "//") ++ closeBracket :: slash :: slash :: lit "9") :=
    .string hbody (.char (by decide) (by decide) (.lastLine (by decide)))
  have hinside : Commented (32 :: (quoted (lit "//") ++ [closeBracket]))
      (slash :: star :: (lit " 8 " ++ star :: slash :: 32 ::
        (quoted (lit "//") ++ closeBracket :: slash :: slash :: lit "9"))) :=
    .block (by decide) (.char (by decide) (by decide) hbehind)
  have hcommented := Commented.char (b := openBracket) (by decide) (by decide) (.char (b := 32) (by decide) (by decide)
    (.char (b := 55) (by decide) (by decide) (.char (b := comma) (by decide) (by decide)
      (.char (b := 32) (by decide) (by decide) hinside))))
  have htext := Text.array (List.cons_ne_nil _ _) hblanks helements
  have hwhole : openBracket :: 32 :: 55 :: comma :: 32 :: 32 :: (quoted (lit "//") ++ [closeBracket]) =
      [] ++ ((openBracket :: (separated (commentElements.map Element.whole) ++ [closeBracket])) ++ []) := by
    decide +kernel
  have hjson : cStr (lit "[ 7, /* 8 */ \"//\"]//9") = openBracket :: 32 :: 55 :: comma :: 32 :: slash :: star ::
      (lit " 8 " ++ star :: slash :: 32 :: (quoted (lit "//") ++ closeBracket :: slash :: slash :: lit "9")) := by
    decide +kernel
  rw [hwhole, ← hjson] at hcommented
  obtain ⟨memory, hrun, hread, -⟩ := minified_read Libc.naturals htext blank_nil blank_nil hcommented
  exact ⟨memory, hrun, hread (by decide)⟩

end CJson
end AstraeaGateway
