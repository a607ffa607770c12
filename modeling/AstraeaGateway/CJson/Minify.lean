import AstraeaGateway.CJson.Buffer
import AstraeaGateway.Http.JsonBody

/-!
# `CJson.Minify` — what `cJSON_Minify` does to a text

`cJSON_Minify` takes the blanks and comments out of a text, in place: `into` writes behind `json`, which reads. The
scanner `minified` does the same on the text alone, one character at a time, and says where it ended.
`minify_exact`: the two agree, and the code stays inside its text exactly if the scanner ends outside of string
literals and block comments.
-/

namespace AstraeaGateway
namespace CJson

open Checked Json Http

def slash : UInt8 := 47
def star : UInt8 := 42
def lineFeed : UInt8 := 10

/-- The characters that are dropped wherever they stand outside of a string: blank, `\t`, `\r` and `\n`. -/
def isSpace (b : UInt8) : Bool := b == 32 || b == 9 || b == 13 || b == lineFeed

/-! ## The code -/

/-- The text in memory, with its NUL, and the two pointers. -/
structure Cursor where
  memory : Str
  json   : Nat
  into   : Nat

namespace Cursor

/-- `json++` -/
def skip (c : Cursor) : Cursor := { c with json := c.json + 1 }

/-- `*into++ = *json++;` -/
def copy (c : Cursor) : Parsed Cursor := do
  let b ← read c.memory c.json
  if c.into < c.memory.length then .ok ⟨c.memory.set c.into b, c.json + 1, c.into + 1⟩
  else .error .overrun

end Cursor

/-- `while (*json && (*json != '\n')) json++;` -/
def skipLine : Nat → Cursor → Parsed Cursor
  | 0, _        => .error .fuel
  | fuel + 1, c => do
      let b ← read c.memory c.json
      if b ≠ 0 ∧ b ≠ lineFeed then skipLine fuel c.skip else .ok c

/-- `while (*json && !((*json == '*') && (json[1] == '/'))) json++;` and `json += 2;` -/
def skipBlock : Nat → Cursor → Parsed Cursor
  | 0, _        => .error .fuel
  | fuel + 1, c => do
      let b ← read c.memory c.json
      if b = 0 then .ok c.skip.skip
      else if b = star then do
        let next ← read c.memory (c.json + 1)
        if next = slash then .ok c.skip.skip else skipBlock fuel c.skip
      else skipBlock fuel c.skip

/-- The rest of a string literal behind its opening quote. -/
def copyString : Nat → Cursor → Parsed Cursor
  | 0, _        => .error .fuel
  | fuel + 1, c => do
      let b ← read c.memory c.json
      if b = 0 ∨ b = quote then c.copy
      else if b = backslash then do
        let c ← c.copy
        let c ← c.copy
        copyString fuel c
      else do
        let c ← c.copy
        copyString fuel c

/-- The loop of `cJSON_Minify`; the inner loops cannot take more steps than the text has characters. -/
def minifyLoop : Nat → Cursor → Parsed Cursor
  | 0, _        => .error .fuel
  | fuel + 1, c => do
      let b ← read c.memory c.json
      if b = 0 then .ok c
      else if isSpace b then minifyLoop fuel c.skip
      else if b = slash then do
        let next ← read c.memory (c.json + 1)
        if next = slash then do
          let c ← skipLine c.memory.length c
          minifyLoop fuel c
        else if next = star then do
          let c ← skipBlock c.memory.length c
          minifyLoop fuel c
        else do
          let c ← c.copy
          minifyLoop fuel c
      else if b = quote then do
        let c ← c.copy
        let c ← copyString c.memory.length c
        minifyLoop fuel c
      else do
        let c ← c.copy
        minifyLoop fuel c

/-- `cJSON_Minify`, and what is in the memory of the text afterwards. -/
def minify (json : Str) : Parsed Str := do
  let content := cStr json ++ [0]
  let c ← minifyLoop content.length ⟨content, 0, 0⟩
  if c.into < c.memory.length then .ok (c.memory.set c.into 0) else .error .overrun

/-! ## The scanner -/

/-- Where the scanner is: between the tokens, in a line comment, in a block comment, in front of the `/` that closes
    it, in a string literal, behind a backslash in one. -/
inductive Mode
  | text
  | line
  | block
  | closing
  | string
  | escape
deriving DecidableEq, Repr

/-- What a character does in a mode, if `next` comes behind it: whether it is kept, and the mode behind it. -/
def Mode.step (b : UInt8) (next : Option UInt8) : Mode → Bool × Mode
  | .text =>
      if isSpace b then (false, .text)
      else if b = slash ∧ next = some slash then (false, .line)
      else if b = slash ∧ next = some star then (false, .block)
      else if b = quote then (true, .string)
      else (true, .text)
  | .line    => if b = lineFeed then (false, .text) else (false, .line)
  | .block   => if b = star ∧ next = some slash then (false, .closing) else (false, .block)
  | .closing => (false, .text)
  | .string  => if b = quote then (true, .text) else if b = backslash then (true, .escape) else (true, .string)
  | .escape  => (true, .string)

/-- The characters that are kept, and the mode at the end. -/
def minified : Mode → Str → Str × Mode
  | mode, []     => ([], mode)
  | mode, b :: s =>
      let (kept, mode) := mode.step b s.head?
      let (rest, mode) := minified mode s
      (if kept then b :: rest else rest, mode)

/-- No string literal and no block comment is left open. -/
def Mode.Closed (mode : Mode) : Prop := mode = .text ∨ mode = .line

/-! ## The cursor in the text -/

/-- `rest` is to be read, `out` has been written, and nothing is written that is still to be read. -/
structure At (c : Cursor) (out rest : Str) : Prop where
  unread  : c.memory.drop c.json = rest ++ [0]
  written : c.memory.take c.into = out
  behind  : c.into ≤ c.json
  noNul   : (0 : UInt8) ∉ out ++ rest

variable {c : Cursor} {out rest : Str} {b : UInt8} {mode : Mode} {inner fuel : Nat}

theorem At.read (h : At c out (b :: rest)) : CJson.read c.memory c.json = .ok b := read_of_drop h.unread

theorem At.read_nul (h : At c out []) : CJson.read c.memory c.json = .ok 0 := read_of_drop h.unread

theorem At.ne_nul (h : At c out (b :: rest)) : b ≠ 0 := fun heq => h.noNul (by simp [heq])

theorem At.skip (h : At c out (b :: rest)) : At c.skip out rest where
  unread := drop_succ_of_drop h.unread
  written := h.written
  behind := Nat.le_succ_of_le h.behind
  noNul hmem := h.noNul (by rcases List.mem_append.mp hmem with hmem | hmem <;> simp [hmem])

/-- One character ahead; behind the last one stands the NUL. -/
theorem At.read_next (h : At c out (b :: rest)) : CJson.read c.memory (c.json + 1) = .ok (rest.head?.getD 0) := by
  have hskip := h.skip
  cases rest with
  | nil => exact hskip.read_nul
  | cons x rest => exact hskip.read

/-- What is left to read is left to read in the memory. -/
theorem At.length_lt (h : At c out rest) : rest.length < c.memory.length := by
  have hlen := congrArg List.length h.unread
  rw [List.length_drop, List.length_append, List.length_singleton] at hlen
  omega

theorem At.json_lt (h : At c out rest) : c.json < c.memory.length := by
  have hlen := congrArg List.length h.unread
  rw [List.length_drop, List.length_append, List.length_singleton] at hlen
  omega

theorem At.into_lt (h : At c out rest) : c.into < c.memory.length := Nat.lt_of_le_of_lt h.behind h.json_lt

/-- What is copied goes to a place that has been read. -/
theorem copy_of_read (hread : CJson.read c.memory c.json = .ok b) (hbehind : c.into ≤ c.json)
    (hlt : c.json < c.memory.length) : c.copy = .ok ⟨c.memory.set c.into b, c.json + 1, c.into + 1⟩ := by
  unfold Cursor.copy
  rw [hread]
  exact if_pos (Nat.lt_of_le_of_lt hbehind hlt)

theorem At.copy (h : At c out (b :: rest)) : ∃ c', c.copy = .ok c' ∧ At c' (out ++ [b]) rest := by
  refine ⟨_, copy_of_read h.read h.behind h.json_lt, ?_, ?_, Nat.succ_le_succ h.behind, ?_⟩
  · show (c.memory.set c.into b).drop (c.json + 1) = _
    rw [List.drop_set_of_lt (Nat.lt_succ_of_le h.behind)]
    exact drop_succ_of_drop h.unread
  · show (c.memory.set c.into b).take (c.into + 1) = _
    rw [List.take_add_one, List.take_set_of_le (Nat.le_refl _), List.getElem?_set_self h.into_lt, h.written]
    rfl
  · rw [List.append_assoc, List.singleton_append]
    exact h.noNul

/-- Behind the NUL nothing can be read. -/
theorem At.read_behind (h : At c out []) {n : Nat} (hn : 0 < n) :
    CJson.read c.memory (c.json + n) = .error .overrun := by
  have hlen := congrArg List.length h.unread
  rw [List.length_drop, List.nil_append, List.length_singleton] at hlen
  have hend : c.memory[c.json + n]? = none := List.getElem?_eq_none (by omega)
  unfold CJson.read
  rw [hend]

/-- The NUL can be copied, but nothing can be read any more then. -/
theorem At.copy_nul (h : At c out []) :
    ∃ c', c.copy = .ok c' ∧ CJson.read c'.memory c'.json = .error .overrun := by
  refine ⟨_, copy_of_read h.read_nul h.behind h.json_lt, ?_⟩
  have hlen := congrArg List.length h.unread
  rw [List.length_drop, List.nil_append, List.length_singleton] at hlen
  have hend : (c.memory.set c.into 0)[c.json + 1]? = none :=
    List.getElem?_eq_none (by rw [List.length_set]; omega)
  unfold CJson.read
  rw [hend]

/-! ## The loops against the scanner -/

/-- What is left of a run in a mode. -/
def continueIn (inner fuel : Nat) (c : Cursor) : Mode → Parsed Cursor
  | .text    => minifyLoop fuel c
  | .line    => skipLine inner c >>= minifyLoop fuel
  | .block   => skipBlock inner c >>= minifyLoop fuel
  | .closing => minifyLoop fuel c.skip
  | .string  => copyString inner c >>= minifyLoop fuel
  | .escape  => c.copy >>= fun c => copyString inner c >>= minifyLoop fuel

/-- The run writes what is kept and stops at the NUL, or leaves the text if something is left open. -/
def Outcome (r : Parsed Cursor) (out : Str) (scanned : Str × Mode) : Prop :=
  (scanned.2.Closed ∧ ∃ c', r = .ok c' ∧ At c' (out ++ scanned.1) []) ∨ (¬ scanned.2.Closed ∧ r = .error .overrun)

/-- The run does in each mode what the scanner does. -/
def Follows (rest : Str) : Prop :=
  ∀ mode c out inner fuel, At c out rest → rest.length < inner → rest.length < fuel →
    Outcome (continueIn inner fuel c mode) out (minified mode rest)

variable {kept : Bool} {next : Option UInt8} {mode' : Mode} {r : Parsed Cursor}

theorem Outcome.dropped (hstep : mode.step b rest.head? = (false, mode')) (h : Outcome r out (minified mode' rest)) :
    Outcome r out (minified mode (b :: rest)) := by
  unfold minified
  rw [hstep]
  exact h

theorem Outcome.copied (hstep : mode.step b rest.head? = (true, mode'))
    (h : Outcome r (out ++ [b]) (minified mode' rest)) : Outcome r out (minified mode (b :: rest)) := by
  unfold minified
  rw [hstep]
  rw [Outcome, List.append_assoc, List.singleton_append] at h
  exact h

theorem minifyLoop_overrun (h : CJson.read c.memory c.json = .error .overrun) :
    minifyLoop (fuel + 1) c = .error .overrun := by
  unfold minifyLoop
  rw [h]
  rfl

theorem copyString_overrun (h : CJson.read c.memory c.json = .error .overrun) :
    copyString (inner + 1) c = .error .overrun := by
  unfold copyString
  rw [h]
  rfl

/-- At the end of the text: the NUL stops the run, or it is passed. -/
theorem follows_nil : Follows [] := by
  intro mode c out inner fuel h hinner hfuel
  obtain ⟨inner, rfl⟩ := Nat.exists_eq_succ_of_ne_zero (Nat.ne_of_gt hinner)
  obtain ⟨fuel, rfl⟩ := Nat.exists_eq_succ_of_ne_zero (Nat.ne_of_gt hfuel)
  have hread := h.read_nul
  obtain ⟨c', hcopy, hout⟩ := h.copy_nul
  have hagain : At c (out ++ []) [] := (List.append_nil out).symm ▸ h
  have hstop : minifyLoop (fuel + 1) c = .ok c := by
    unfold minifyLoop
    rw [hread]
    rfl
  cases mode with
  | text => exact Or.inl ⟨Or.inl rfl, c, hstop, hagain⟩
  | line =>
      refine Or.inl ⟨Or.inr rfl, c, ?_, hagain⟩
      show skipLine (inner + 1) c >>= _ = _
      unfold skipLine
      rw [hread]
      exact hstop
  | block =>
      refine Or.inr ⟨by simp [minified, Mode.Closed], ?_⟩
      show skipBlock (inner + 1) c >>= _ = _
      unfold skipBlock
      rw [hread]
      exact minifyLoop_overrun (c := c.skip.skip) (h.read_behind Nat.two_pos)
  | closing =>
      exact Or.inr ⟨by simp [minified, Mode.Closed], minifyLoop_overrun (c := c.skip) (h.read_behind Nat.one_pos)⟩
  | string =>
      refine Or.inr ⟨by simp [minified, Mode.Closed], ?_⟩
      show copyString (inner + 1) c >>= _ = _
      unfold copyString
      rw [hread]
      show c.copy >>= _ = _
      rw [hcopy]
      exact minifyLoop_overrun hout
  | escape =>
      refine Or.inr ⟨by simp [minified, Mode.Closed], ?_⟩
      show (c.copy >>= fun c => copyString (inner + 1) c >>= minifyLoop (fuel + 1)) = _
      rw [hcopy]
      show copyString (inner + 1) c' >>= _ = _
      rw [copyString_overrun hout]
      rfl

/-- What stands one character ahead, if it is no NUL, is part of the text. -/
theorem head_of_getD {x : UInt8} (hx : x ≠ 0) (h : rest.head?.getD 0 = x) : rest.head? = some x := by
  cases rest with
  | nil => exact absurd h.symm hx
  | cons y rest => exact congrArg some h

theorem skipLine_step (h : At c out (b :: rest)) (hb : b ≠ lineFeed) :
    skipLine (inner + 1) c = skipLine inner c.skip := by
  rw [skipLine, h.read]
  exact if_pos ⟨h.ne_nul, hb⟩

theorem skipBlock_step (h : At c out (b :: rest)) (hb : ¬ (b = star ∧ rest.head? = some slash)) :
    skipBlock (inner + 1) c = skipBlock inner c.skip := by
  rw [skipBlock, h.read]
  refine (if_neg h.ne_nul).trans ?_
  by_cases hstar : b = star
  · have hnext : rest.head?.getD 0 ≠ slash := fun hnext => hb ⟨hstar, head_of_getD (by decide) hnext⟩
    rw [if_pos hstar, h.read_next]
    exact if_neg hnext
  · rw [if_neg hstar]

/-- Between the tokens. -/
theorem Follows.text (ih : Follows rest) (h : At c out (b :: rest)) (hfuel : (b :: rest).length < fuel) :
    Outcome (minifyLoop fuel c) out (minified .text (b :: rest)) := by
  obtain ⟨fuel, rfl⟩ := Nat.exists_eq_succ_of_ne_zero (Nat.ne_of_gt (Nat.zero_lt_of_lt hfuel))
  have hrest : rest.length < fuel := Nat.lt_of_succ_lt_succ hfuel
  have hone : rest.length < rest.length + 1 := Nat.lt_succ_self _
  obtain ⟨inner, hinner, hlt⟩ : ∃ inner, c.memory.length = inner + 1 ∧ rest.length < inner := by
    have hlen := h.length_lt
    rw [List.length_cons] at hlen
    exact ⟨c.memory.length - 1, by omega, by omega⟩
  obtain ⟨c', hcopy, hcopied⟩ := h.copy
  rw [minifyLoop, h.read]
  dsimp only [bind, Except.bind]
  rw [if_neg h.ne_nul]
  by_cases hspace : isSpace b = true
  · rw [if_pos hspace]
    exact Outcome.dropped (by simp [Mode.step, hspace]) (ih .text _ _ _ _ h.skip hone hrest)
  · rw [if_neg hspace]
    by_cases hslash : b = slash
    · subst hslash
      rw [if_pos rfl, h.read_next]
      dsimp only
      by_cases hline : rest.head?.getD 0 = slash
      · have hnext := head_of_getD (by decide) hline
        rw [if_pos hline, hinner, skipLine_step h (by decide)]
        exact Outcome.dropped (by rw [hnext]; rfl) (ih .line _ _ _ _ h.skip hlt hrest)
      · rw [if_neg hline]
        by_cases hblock : rest.head?.getD 0 = star
        · have hnext := head_of_getD (by decide) hblock
          rw [if_pos hblock, hinner, skipBlock_step h (by simp [slash, star])]
          exact Outcome.dropped (by rw [hnext]; rfl) (ih .block _ _ _ _ h.skip hlt hrest)
        · have hnext : rest.head? ≠ some slash ∧ rest.head? ≠ some star :=
            ⟨fun heq => hline (by rw [heq, Option.getD_some]), fun heq => hblock (by rw [heq, Option.getD_some])⟩
          rw [if_neg hblock, hcopy]
          have hquote : slash ≠ quote := by decide
          have hstep : Mode.step slash rest.head? .text = (true, .text) := by
            simp only [Mode.step, hspace, hnext, hquote, and_false, if_false, Bool.false_eq_true]
          exact Outcome.copied hstep (ih .text _ _ _ _ hcopied hone hrest)
    · rw [if_neg hslash]
      by_cases hquote : b = quote
      · rw [if_pos hquote, hcopy]
        exact Outcome.copied (by rw [hquote]; rfl) (ih .string _ _ _ _ hcopied hcopied.length_lt hrest)
      · rw [if_neg hquote, hcopy]
        exact Outcome.copied (by simp [Mode.step, hspace, hslash, hquote]) (ih .text _ _ _ _ hcopied hone hrest)

/-- Up to the end of the line, which is a blank. -/
theorem Follows.line (ih : Follows rest) (h : At c out (b :: rest)) (hinner : (b :: rest).length < inner)
    (hfuel : (b :: rest).length < fuel) :
    Outcome (skipLine inner c >>= minifyLoop fuel) out (minified .line (b :: rest)) := by
  obtain ⟨inner, rfl⟩ := Nat.exists_eq_succ_of_ne_zero (Nat.ne_of_gt (Nat.zero_lt_of_lt hinner))
  by_cases hb : b = lineFeed
  · have hstop : skipLine (inner + 1) c = .ok c := by
      rw [skipLine, h.read]
      exact if_neg (fun hne => hne.2 hb)
    have htext := ih.text h hfuel
    rw [hstop]
    subst hb
    exact htext
  · rw [skipLine_step h hb]
    exact Outcome.dropped (if_neg hb)
      (ih .line _ _ _ _ h.skip (Nat.lt_of_succ_lt_succ hinner) (Nat.lt_of_succ_lt hfuel))

/-- Up to `*/`, of which the `/` is passed together with the `*`. -/
theorem Follows.block (ih : Follows rest) (h : At c out (b :: rest)) (hinner : (b :: rest).length < inner)
    (hfuel : (b :: rest).length < fuel) :
    Outcome (skipBlock inner c >>= minifyLoop fuel) out (minified .block (b :: rest)) := by
  obtain ⟨inner, rfl⟩ := Nat.exists_eq_succ_of_ne_zero (Nat.ne_of_gt (Nat.zero_lt_of_lt hinner))
  have hrest : rest.length < inner := Nat.lt_of_succ_lt_succ hinner
  have hlt : rest.length < fuel := Nat.lt_of_succ_lt hfuel
  by_cases hb : b = star ∧ rest.head? = some slash
  · have hstop : skipBlock (inner + 1) c = .ok c.skip.skip := by
      rw [skipBlock, h.read]
      refine (if_neg h.ne_nul).trans ((if_pos hb.1).trans ?_)
      rw [h.read_next, hb.2]
      show (if slash = slash then .ok c.skip.skip else skipBlock inner c.skip) = _
      exact if_pos rfl
    rw [hstop]
    exact Outcome.dropped (if_pos hb) (ih .closing _ _ _ _ h.skip hrest hlt)
  · rw [skipBlock_step h hb]
    exact Outcome.dropped (if_neg hb) (ih .block _ _ _ _ h.skip hrest hlt)

/-- Up to the closing quote; a backslash takes the next character with it. -/
theorem Follows.string (ih : Follows rest) (h : At c out (b :: rest)) (hinner : (b :: rest).length < inner)
    (hfuel : (b :: rest).length < fuel) :
    Outcome (copyString inner c >>= minifyLoop fuel) out (minified .string (b :: rest)) := by
  obtain ⟨inner, rfl⟩ := Nat.exists_eq_succ_of_ne_zero (Nat.ne_of_gt (Nat.zero_lt_of_lt hinner))
  have hrest : rest.length < inner := Nat.lt_of_succ_lt_succ hinner
  have hlt : rest.length < fuel := Nat.lt_of_succ_lt hfuel
  obtain ⟨c', hcopy, hcopied⟩ := h.copy
  rw [copyString, h.read]
  dsimp only [bind, Except.bind]
  by_cases hquote : b = quote
  · rw [if_pos (Or.inr hquote), hcopy]
    exact Outcome.copied (if_pos hquote) (ih .text _ _ _ _ hcopied hrest hlt)
  · rw [if_neg (fun hor => hor.elim h.ne_nul hquote)]
    by_cases hback : b = backslash
    · rw [if_pos hback, hcopy]
      refine Outcome.copied ((if_neg hquote).trans (if_pos hback)) ?_
      show Outcome ((c'.copy >>= fun c => copyString inner c) >>= minifyLoop fuel) _ _
      rw [bind_assoc]
      exact ih .escape _ _ _ _ hcopied hrest hlt
    · rw [if_neg hback, hcopy]
      exact Outcome.copied ((if_neg hquote).trans (if_neg hback)) (ih .string _ _ _ _ hcopied hrest hlt)

/-- Each character takes the run and the scanner to the same mode. -/
theorem follows_cons (ih : Follows rest) : Follows (b :: rest) := by
  intro mode c out inner fuel h hinner hfuel
  cases mode with
  | text => exact ih.text h hfuel
  | line => exact ih.line h hinner hfuel
  | block => exact ih.block h hinner hfuel
  | closing =>
      exact Outcome.dropped rfl (ih .text _ _ inner _ h.skip (Nat.lt_of_succ_lt hinner) (Nat.lt_of_succ_lt hfuel))
  | string => exact ih.string h hinner hfuel
  | escape =>
      obtain ⟨c', hcopy, hcopied⟩ := h.copy
      have hstring := ih .string _ _ inner fuel hcopied (Nat.lt_of_succ_lt hinner) (Nat.lt_of_succ_lt hfuel)
      refine Outcome.copied rfl ?_
      show Outcome (c.copy >>= _) _ _
      rw [hcopy]
      exact hstring

/-- **The run follows the scanner** through every text. -/
theorem follows (rest : Str) : Follows rest := by
  induction rest with
  | nil => exact follows_nil
  | cons b rest ih => exact follows_cons ih

/-- A C string ends at the first NUL. -/
theorem cStr_append_nul {s : Str} (h : (0 : UInt8) ∉ s) : cStr (s ++ 0 :: rest) = s := by
  have hall : ∀ b ∈ s, (b != 0) = true := by
    intro b hb
    rw [bne_iff_ne]
    rintro rfl
    exact h hb
  rw [cStr, List.takeWhile_append_of_pos hall]
  exact List.append_nil s

theorem at_start {json : Str} (hnul : (0 : UInt8) ∉ json) : At ⟨json ++ [0], 0, 0⟩ [] json where
  unread := rfl
  written := rfl
  behind := Nat.le_refl _
  noNul := hnul

theorem minifyLoop_outcome (json : Str) :
    Outcome (minifyLoop (cStr json ++ [0]).length ⟨cStr json ++ [0], 0, 0⟩) [] (minified .text (cStr json)) := by
  have hfuel : (cStr json).length < (cStr json ++ [0]).length := by
    rw [List.length_append]
    exact Nat.lt_succ_self _
  exact follows (cStr json) .text _ _ _ _ (at_start (not_mem_cStr json)) hfuel hfuel

/-- What is kept stands at the start of the memory. -/
theorem minify_of_closed {json : Str} (h : (minified .text (cStr json)).2.Closed) :
    ∃ memory, minify json = .ok memory ∧ cStr memory = (minified .text (cStr json)).1 := by
  rcases minifyLoop_outcome json with ⟨-, c, hrun, hend⟩ | ⟨hopen, -⟩
  · refine ⟨c.memory.set c.into 0, ?_, ?_⟩
    · unfold minify
      dsimp only
      rw [hrun]
      exact if_pos hend.into_lt
    · rw [List.set_eq_take_append_cons_drop, if_pos hend.into_lt, hend.written, List.nil_append]
      exact cStr_append_nul (fun hmem => hend.noNul (List.mem_append_left _ hmem))
  · exact absurd h hopen

theorem minify_of_open {json : Str} (h : ¬ (minified .text (cStr json)).2.Closed) :
    minify json = .error .overrun := by
  rcases minifyLoop_outcome json with ⟨hclosed, -⟩ | ⟨-, hrun⟩
  · exact absurd hclosed h
  · unfold minify
    dsimp only
    rw [hrun]
    rfl

/-- **What `cJSON_Minify` does to a text**: if no string literal and no block comment is left open, what the scanner
    keeps stands in the memory of the text afterwards; otherwise, and only then, the code leaves the text. -/
theorem minify_exact (json : Str) :
    ((minified .text (cStr json)).2.Closed →
      ∃ memory, minify json = .ok memory ∧ cStr memory = (minified .text (cStr json)).1) ∧
    (minify json = .error .overrun ↔ ¬ (minified .text (cStr json)).2.Closed) := by
  refine ⟨minify_of_closed, fun hrun hclosed => ?_, minify_of_open⟩
  obtain ⟨memory, hok, -⟩ := minify_of_closed hclosed
  rw [hok] at hrun
  cases hrun

end CJson
end AstraeaGateway
