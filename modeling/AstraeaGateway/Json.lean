import AstraeaGateway.Hex
import Mathlib.Data.List.Basic

/-!
# `Json` — objects of strings, read from their text

A reader for the JSON texts that are an object whose members are strings: `lex` takes a text apart into
tokens, `readObject` reads the members off these. Strings are bytes; `Escaped s t` says that `t` is one of
the ways to write `s` between quotes, and `Encoded s t` that it escapes only what it has to.
`readObject_objectText` is the round trip, for any writer of strings. A pair of surrogates is not read.
-/

namespace Json

def quote : UInt8 := 34
def backslash : UInt8 := 92
def openBrace : UInt8 := 123
def closeBrace : UInt8 := 125
def colon : UInt8 := 58
def comma : UInt8 := 44

/-- `u`, which announces the four hexadecimal digits of a code point. -/
def unicode : UInt8 := 117

/-! ## Escapes -/

/-- What a backslash and one character stand for. -/
def shortEscape (e : UInt8) : Option UInt8 :=
  if e = 34 then some 34          -- quote
  else if e = 92 then some 92     -- backslash
  else if e = 47 then some 47     -- `/`
  else if e = 98 then some 8      -- `b`
  else if e = 102 then some 12    -- `f`
  else if e = 110 then some 10    -- `n`
  else if e = 114 then some 13    -- `r`
  else if e = 116 then some 9     -- `t`
  else none

/-- The bytes of a code point below `0x10000` in UTF-8; none for a surrogate. -/
def utf8 (n : Nat) : Option (List UInt8) :=
  if n < 0x80 then some [UInt8.ofNat n]
  else if n < 0x800 then some [UInt8.ofNat (0xC0 + n / 64), UInt8.ofNat (0x80 + n % 64)]
  else if 0xD800 ≤ n ∧ n < 0xE000 then none
  else some [UInt8.ofNat (0xE0 + n / 4096), UInt8.ofNat (0x80 + n / 64 % 64), UInt8.ofNat (0x80 + n % 64)]

/-- What four hexadecimal digits stand for. -/
def unicodeEscape (a b c d : UInt8) : Option (List UInt8) := do
  utf8 (4096 * (← Hex.value a) + 256 * (← Hex.value b) + 16 * (← Hex.value c) + (← Hex.value d))

/-- `Escaped s t`: between quotes, `t` stands for `s`. -/
inductive Escaped : List UInt8 → List UInt8 → Prop
  | nil : Escaped [] []
  | plain {b : UInt8} {s t : List UInt8} (hcontrol : 32 ≤ b) (hquote : b ≠ quote) (hback : b ≠ backslash)
      (h : Escaped s t) : Escaped (b :: s) (b :: t)
  | short {b e : UInt8} {s t : List UInt8} (he : shortEscape e = some b) (h : Escaped s t) :
      Escaped (b :: s) (backslash :: e :: t)
  | unicode {u : List UInt8} {a b c d : UInt8} {s t : List UInt8} (hu : unicodeEscape a b c d = some u)
      (h : Escaped s t) : Escaped (u ++ s) (backslash :: unicode :: a :: b :: c :: d :: t)

/-- What cannot stand for itself between quotes. -/
def MustEscape (b : UInt8) : Prop := b < 32 ∨ b = quote ∨ b = backslash

instance (b : UInt8) : Decidable (MustEscape b) :=
  inferInstanceAs (Decidable (b < 32 ∨ b = quote ∨ b = backslash))

/-- `Encoded s t`: between quotes, `t` stands for `s`, and escapes nothing that can stand for itself. -/
inductive Encoded : List UInt8 → List UInt8 → Prop
  | nil : Encoded [] []
  | plain {b : UInt8} {s t : List UInt8} (hplain : ¬ MustEscape b) (h : Encoded s t) :
      Encoded (b :: s) (b :: t)
  | short {b e : UInt8} {s t : List UInt8} (hmust : MustEscape b) (he : shortEscape e = some b)
      (h : Encoded s t) : Encoded (b :: s) (backslash :: e :: t)
  | unicode {x a b c d : UInt8} {s t : List UInt8} (hmust : MustEscape x)
      (hu : unicodeEscape a b c d = some [x]) (h : Encoded s t) :
      Encoded (x :: s) (backslash :: unicode :: a :: b :: c :: d :: t)

/-- An encoded string is an escaped one. -/
theorem Encoded.escaped {s t : List UInt8} (h : Encoded s t) : Escaped s t := by
  induction h with
  | nil => exact Escaped.nil
  | plain hplain _ ih =>
      simp only [MustEscape, not_or] at hplain
      exact Escaped.plain (UInt8.not_lt.mp hplain.1) hplain.2.1 hplain.2.2 ih
  | short _ he _ ih => exact Escaped.short he ih
  | unicode _ hu _ ih => exact Escaped.unicode hu ih

theorem Encoded.length_le {s t : List UInt8} (h : Encoded s t) : s.length ≤ t.length := by
  induction h with
  | nil => exact Nat.le_refl 0
  | plain _ _ ih => exact Nat.succ_le_succ ih
  | short _ _ _ ih => exact Nat.succ_le_succ (Nat.le_succ_of_le ih)
  | unicode _ _ _ ih =>
      simp only [List.length_cons]
      omega

/-- A text that is longer than its string, since the first byte must be escaped. -/
theorem eq_iff_of_longer {b : UInt8} {s t : List UInt8} (hmust : MustEscape b)
    (h : (b :: s).length < t.length) : t = b :: s ↔ ∀ x ∈ b :: s, ¬ MustEscape x := by
  refine iff_of_false ?_ ?_
  · rintro rfl
    exact Nat.lt_irrefl _ h
  · intro hall
    exact hall b List.mem_cons_self hmust

/-- **The text of a string is the string exactly if nothing in it must be escaped**: an escape is longer than
    what it stands for. -/
theorem Encoded.eq_iff {s t : List UInt8} (h : Encoded s t) : t = s ↔ ∀ b ∈ s, ¬ MustEscape b := by
  induction h with
  | nil => simp
  | plain hplain _ ih =>
      rw [List.cons.injEq, List.forall_mem_cons, ih]
      exact ⟨fun heq => ⟨hplain, heq.2⟩, fun hall => ⟨rfl, hall.2⟩⟩
  | short hmust _ h _ => exact eq_iff_of_longer hmust (Nat.succ_lt_succ (Nat.lt_succ_of_le h.length_le))
  | unicode hmust _ h _ =>
      refine eq_iff_of_longer hmust ?_
      have hlength := h.length_le
      simp only [List.length_cons]
      omega

/-! ## Reading -/

inductive Token
  | openBrace
  | closeBrace
  | colon
  | comma
  | string (s : List UInt8)
deriving DecidableEq, Repr

def punctuation (b : UInt8) : Option Token :=
  if b = openBrace then some .openBrace
  else if b = closeBrace then some .closeBrace
  else if b = colon then some .colon
  else if b = comma then some .comma
  else none

def isSpace (b : UInt8) : Bool := b == 32 || b == 9 || b == 10 || b == 13

/-- The tokens of a text; with `some s`, from inside a string of which `s` has been read. -/
def lex : Option (List UInt8) → List UInt8 → Option (List Token)
  | none, []       => some []
  | some _, []     => none
  | none, b :: t   =>
      if isSpace b then lex none t
      else if b = quote then lex (some []) t
      else (punctuation b).bind (fun p => (lex none t).map (p :: ·))
  | some s, b :: t =>
      if b = quote then (lex none t).map (Token.string s :: ·)
      else if b = backslash then
        match t with
        | [] => none
        | e :: t =>
            if e = unicode then
              match t with
              | h₁ :: h₂ :: h₃ :: h₄ :: t => (unicodeEscape h₁ h₂ h₃ h₄).bind (fun u => lex (some (s ++ u)) t)
              | _ => none
            else (shortEscape e).bind (fun x => lex (some (s ++ [x])) t)
      else if b < 32 then none
      else lex (some (s ++ [b])) t

/-- The members of an object, behind its opening brace. -/
def readMembers : List Token → Option (List (List UInt8 × List UInt8))
  | [.string key, .colon, .string value, .closeBrace] => some [(key, value)]
  | .string key :: .colon :: .string value :: .comma :: rest =>
      (readMembers rest).map ((key, value) :: ·)
  | _ => none

/-- The members of an object, in the order of its text. -/
def readObject (text : List UInt8) : Option (List (List UInt8 × List UInt8)) :=
  (lex none text).bind (fun
    | [.openBrace, .closeBrace] => some []
    | .openBrace :: rest        => readMembers rest
    | _                         => none)

/-! ## The round trip -/

variable {s t u acc rest : List UInt8}

/-- A character that stands for itself; the two rules below are for escape sequences. -/
theorem lex_plain {b : UInt8} (hcontrol : 32 ≤ b) (hquote : b ≠ quote) (hback : b ≠ backslash) :
    lex (some acc) (b :: t) = lex (some (acc ++ [b])) t := by
  rw [lex.eq_def]
  have hcontrol : ¬ b < 32 := UInt8.not_lt.mpr hcontrol
  simp only [hquote, hback, hcontrol, if_false]

theorem lex_short {b e : UInt8} (he : shortEscape e = some b) :
    lex (some acc) (backslash :: e :: t) = lex (some (acc ++ [b])) t := by
  have hne : e ≠ unicode := by
    rintro rfl
    cases he
  rw [lex.eq_def]
  simp [hne, he, quote, backslash]

theorem lex_unicode {a b c d : UInt8} (hu : unicodeEscape a b c d = some u) :
    lex (some acc) (backslash :: unicode :: a :: b :: c :: d :: t) = lex (some (acc ++ u)) t := by
  rw [lex.eq_def]
  simp [hu, quote, backslash]

/-- **Reading a string** up to its closing quote. -/
theorem lex_escaped (h : Escaped s t) (acc rest : List UInt8) :
    lex (some acc) (t ++ quote :: rest) = (lex none rest).map (Token.string (acc ++ s) :: ·) := by
  induction h generalizing acc with
  | nil =>
      rw [List.append_nil, List.nil_append, lex.eq_def]
      simp
  | plain hcontrol hquote hback _ ih =>
      rw [List.cons_append, lex_plain hcontrol hquote hback, ih, List.append_assoc, List.singleton_append]
  | short he _ ih =>
      rw [List.cons_append, List.cons_append, lex_short he, ih, List.append_assoc, List.singleton_append]
  | unicode hu _ ih =>
      simp only [List.cons_append]
      rw [lex_unicode hu, ih, List.append_assoc]

/-! ## Objects -/

def quoted (t : List UInt8) : List UInt8 := quote :: t ++ [quote]

variable (write : List UInt8 → List UInt8)

/-- The text of a member, with `write` for what stands between quotes. -/
def member (x : List UInt8 × List UInt8) : List UInt8 := quoted (write x.1) ++ colon :: quoted (write x.2)

/-- The text of an object, without blanks. -/
def objectText : List (List UInt8 × List UInt8) → List UInt8
  | []     => [openBrace, closeBrace]
  | x :: l => openBrace :: (member write x ++ (l.flatMap (fun y => comma :: member write y) ++ [closeBrace]))

def memberTokens (x : List UInt8 × List UInt8) : List Token := [.string x.1, .colon, .string x.2]

def restTokens (l : List (List UInt8 × List UInt8)) : List Token :=
  l.flatMap (fun y => .comma :: memberTokens y) ++ [.closeBrace]

variable {write}

/-- **A string** is one token. -/
theorem lex_quoted (h : Escaped s t) (rest : List UInt8) :
    lex none (quoted t ++ rest) = (lex none rest).map (Token.string s :: ·) := by
  have hbody := lex_escaped h [] rest
  rw [List.nil_append] at hbody
  rw [← hbody, quoted, List.cons_append, List.cons_append, List.append_assoc, List.singleton_append, lex.eq_def]
  simp [isSpace, quote]

theorem lex_colon (t : List UInt8) : lex none (colon :: t) = (lex none t).map (Token.colon :: ·) := by
  rw [lex.eq_def]
  rfl

theorem lex_comma (t : List UInt8) : lex none (comma :: t) = (lex none t).map (Token.comma :: ·) := by
  rw [lex.eq_def]
  rfl

theorem lex_openBrace (t : List UInt8) :
    lex none (openBrace :: t) = (lex none t).map (Token.openBrace :: ·) := by
  rw [lex.eq_def]
  rfl

theorem lex_closeBrace : lex none [closeBrace] = some [Token.closeBrace] := rfl

/-- **A member** is its tokens, -/
theorem lex_member (hwrite : ∀ s, Escaped s (write s)) (x : List UInt8 × List UInt8) (rest : List UInt8) :
    lex none (member write x ++ rest) = (lex none rest).map (memberTokens x ++ ·) := by
  unfold member
  rw [List.append_assoc, List.cons_append, lex_quoted (hwrite x.1), lex_colon, lex_quoted (hwrite x.2),
    Option.map_map, Option.map_map]
  rfl

/-- and so is what stands behind it, up to the closing brace. -/
theorem lex_rest (hwrite : ∀ s, Escaped s (write s)) (l : List (List UInt8 × List UInt8)) :
    lex none (l.flatMap (fun y => comma :: member write y) ++ [closeBrace]) = some (restTokens l) := by
  induction l with
  | nil => exact lex_closeBrace
  | cons y l ih =>
      rw [List.flatMap_cons, List.append_assoc, List.cons_append, lex_comma, lex_member hwrite, ih]
      rfl

/-- The tokens of members are read back as the members. -/
theorem readMembers_tokens (x : List UInt8 × List UInt8) (l : List (List UInt8 × List UInt8)) :
    readMembers (memberTokens x ++ restTokens l) = some (x :: l) := by
  induction l generalizing x with
  | nil => rfl
  | cons y l ih =>
      show (readMembers (memberTokens y ++ restTokens l)).map (x :: ·) = some (x :: y :: l)
      rw [ih, Option.map_some]

/-- **Reading an object undoes writing it**, however its strings are escaped. -/
theorem readObject_objectText (hwrite : ∀ s, Escaped s (write s)) (l : List (List UInt8 × List UInt8)) :
    readObject (objectText write l) = some l := by
  cases l with
  | nil => rfl
  | cons x l =>
      rw [readObject, objectText, lex_openBrace, lex_member hwrite, lex_rest hwrite]
      exact readMembers_tokens x l

end Json
