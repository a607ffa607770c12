import AstraeaGateway.CJson.Buffer
import AstraeaGateway.Http.JsonBody

/-!
# `CJson.ParseString` — `parse_string`, and what keeps it inside its memory

The scan for the closing quote counts the escape sequences, and the output is allocated by that count; the
decoding loop then writes without looking at the allocation. It may even read the text differently from the
scan, which takes a backslash and one character for an escape sequence wherever it stands, also among the
four characters behind `\u`. `decode_sat` is why the allocation is large enough all the same: what is left to
write never exceeds what the scan would count from here on (`width`).
-/

namespace AstraeaGateway
namespace CJson

open Checked Json Http

/-! ## The source -/

/-- The loop of `parse_hex4`; an invalid digit makes the result 0, whatever was read before it. -/
def hex4Loop (content : Str) : Nat → Nat → Nat → Parsed Nat
  | 0, _, h     => .ok h
  | n + 1, p, h => do
      match Hex.value (← read content p) with
      | none   => return 0
      | some d => hex4Loop content n (p + 1) (if n = 0 then h + d else (h + d) <<< 4)

/-- `parse_hex4` -/
def parseHex4 (content : Str) (p : Nat) : Parsed Nat := hex4Loop content 4 p 0

/-- The loop of `utf16_literal_to_utf8` over all bytes but the first: the code point that is left for that
    one, and the bytes written behind it. -/
def encodeLoop : Nat → Nat → Str → Nat × Str
  | 0, codepoint, out     => (codepoint, out)
  | n + 1, codepoint, out => encodeLoop n (codepoint >>> 6) (UInt8.ofNat ((codepoint ||| 0x80) &&& 0xBF) :: out)

/-- The bytes of a code point, with the number of bytes and the mark of the first one. -/
def encodeAs (utf8Length : Nat) (firstByteMark : Nat) (codepoint : Nat) : Str :=
  let (codepoint, out) := encodeLoop (utf8Length - 1) codepoint []
  if utf8Length > 1 then UInt8.ofNat ((codepoint ||| firstByteMark) &&& 0xFF) :: out
  else UInt8.ofNat (codepoint &&& 0x7F) :: out

/-- What `utf16_literal_to_utf8` writes for a code point; `none` for an invalid one. -/
def encodeUtf8 (codepoint : Nat) : Option Str :=
  if codepoint < 0x80 then some (encodeAs 1 0 codepoint)
  else if codepoint < 0x800 then some (encodeAs 2 0xC0 codepoint)
  else if codepoint < 0x10000 then some (encodeAs 3 0xE0 codepoint)
  else if codepoint ≤ 0x10FFFF then some (encodeAs 4 0xF0 codepoint)
  else none

/-- `utf16_literal_to_utf8`: the bytes for `output_pointer`, and the length of the sequence; `none` is `fail`. -/
def utf16LiteralToUtf8 (content : Str) (inputPointer inputEnd : Nat) : Parsed (Option (Str × Nat)) := do
  if inputEnd < inputPointer + 6 then return none
  let firstCode ← parseHex4 content (inputPointer + 2)
  if 0xDC00 ≤ firstCode ∧ firstCode ≤ 0xDFFF then return none
  if 0xD800 ≤ firstCode ∧ firstCode ≤ 0xDBFF then
    let second := inputPointer + 6
    if inputEnd < second + 6 then return none
    if (← read content second) ≠ backslash then return none
    if (← read content (second + 1)) ≠ unicode then return none
    let secondCode ← parseHex4 content (second + 2)
    if secondCode < 0xDC00 ∨ secondCode > 0xDFFF then return none
    let codepoint := 0x10000 + (((firstCode &&& 0x3FF) <<< 10) ||| (secondCode &&& 0x3FF))
    return (encodeUtf8 codepoint).map (fun bytes => (bytes, 12))
  else return (encodeUtf8 firstCode).map (fun bytes => (bytes, 6))

/-- The cases of the switch that write one character. -/
def escapeSequence (b : UInt8) : Option UInt8 :=
  if b = 98 then some 8           -- `b`
  else if b = 102 then some 12    -- `f`
  else if b = 110 then some 10    -- `n`
  else if b = 114 then some 13    -- `r`
  else if b = 116 then some 9     -- `t`
  else if b = quote ∨ b = backslash ∨ b = 47 then some b
  else none

/-- A write behind what has been written, into an output of `room` bytes. -/
def emit (room : Nat) (out bytes : Str) : Parsed Str :=
  if out.length + bytes.length ≤ room then .ok (out ++ bytes) else .error .overrun

/-- The loop through the string literal, and the terminating NUL. Each iteration moves the pointer. -/
def decode (content : Str) (inputEnd room : Nat) : Nat → Nat → Str → Parsed Str
  | 0, _, _                    => .error .fuel
  | fuel + 1, inputPointer, out =>
      if inputPointer < inputEnd then do
        let b ← read content inputPointer
        if b ≠ backslash then decode content inputEnd room fuel (inputPointer + 1) (← emit room out [b])
        else
          let e ← read content (inputPointer + 1)
          match escapeSequence e with
          | some x => decode content inputEnd room fuel (inputPointer + 2) (← emit room out [x])
          | none   =>
              if e = unicode then
                match ← utf16LiteralToUtf8 content inputPointer inputEnd with
                | some (bytes, sequenceLength) =>
                    decode content inputEnd room fuel (inputPointer + sequenceLength) (← emit room out bytes)
                | none => .error (.refused inputPointer)
              else .error (.refused inputPointer)
      else emit room out [0]

/-- The loop that looks for the closing quote: the bytes before it, and how many of them are skipped as the
    first of an escape sequence. `none` is a string that does not end. -/
def scan : Str → Option (Nat × Nat)
  | []        => none
  | b :: rest =>
      if b = quote then some (0, 0)
      else if b = backslash then
        match rest with
        | []        => none
        | _ :: rest => (scan rest).map (fun (n, skipped) => (n + 2, skipped + 1))
      else (scan rest).map (fun (n, skipped) => (n + 1, skipped))

/-- `parse_string`: the `valuestring` as a C string, and the offset behind the closing quote. -/
def parseString (content : Str) (offset : Nat) : Parsed (Str × Nat) := do
  if (← read content offset) ≠ quote then .error (.refused (offset + 1))
  else
    match scan (content.drop (offset + 1)) with
    | none => .error (.refused (offset + 1))
    | some (n, skippedBytes) =>
        let inputEnd := offset + 1 + n
        let allocationLength := inputEnd - offset - skippedBytes
        let output ← decode content inputEnd (allocationLength + 1) (n + 1) (offset + 1) []
        return (cStr output, inputEnd + 1)

/-! ## What the scan counts -/

/-- The bytes before the closing quote less the skipped ones, where the scan starts at this byte. -/
def width : Str → Nat
  | []        => 0
  | b :: rest =>
      if b = backslash then
        match rest with
        | []        => 1
        | _ :: rest => width rest + 1
      else width rest + 1

variable {b e : UInt8} {s rest : Str} {n skipped : Nat}

theorem width_cons_of_ne (h : b ≠ backslash) : width (b :: s) = width s + 1 := by
  rw [width.eq_def]
  exact if_neg h

theorem width_escape : width (backslash :: e :: s) = width s + 1 := by
  rw [width.eq_def]
  exact if_pos rfl

/-- One byte adds at most one, wherever the scan starts. -/
theorem width_bounds (b : UInt8) (s : Str) : width s ≤ width (b :: s) ∧ width (b :: s) ≤ width s + 1 := by
  induction hn : s.length using Nat.strong_induction_on generalizing b s with
  | _ n ih =>
      by_cases hb : b = backslash
      · subst hb
        cases s with
        | nil => exact ⟨Nat.zero_le _, Nat.le_refl _⟩
        | cons e s =>
            -- an escape sequence counts once, its second character alone at most once
            obtain ⟨hle, hge⟩ := ih s.length (by rw [← hn]; exact Nat.lt_succ_self _) e s rfl
            rw [width_escape]
            omega
      · rw [width_cons_of_ne hb]
        omega

theorem width_drop_le (k : Nat) (s : Str) : width (s.drop k) ≤ width s := by
  induction k generalizing s with
  | zero => exact Nat.le_refl _
  | succ k ih =>
      cases s with
      | nil => exact Nat.le_refl _
      | cons b s => exact Nat.le_trans (ih s) (width_bounds b s).1

/-- Characters that are no backslash count one each. -/
theorem width_append {l : Str} (h : ∀ x ∈ l, x ≠ backslash) : width (l ++ s) = l.length + width s := by
  induction l with
  | nil => exact (Nat.zero_add _).symm
  | cons x l ih =>
      rw [List.cons_append, width_cons_of_ne (h x List.mem_cons_self),
        ih (fun y hy => h y (List.mem_cons_of_mem x hy)), List.length_cons]
      omega

/-- **The scan** finds a quote, and allocates for the width of what stands before it. -/
theorem scan_spec (h : scan rest = some (n, skipped)) :
    rest[n]? = some quote ∧ n = width (rest.take n) + skipped := by
  fun_induction scan rest generalizing n skipped with
  | case1 => cases h
  | case2 rest =>
      obtain ⟨rfl, rfl⟩ := Prod.mk.inj (Option.some.inj h)
      exact ⟨rfl, rfl⟩
  | case3 => cases h
  | case4 e rest hne ih =>
      obtain ⟨⟨m, k⟩, hscan, heq⟩ := Option.map_eq_some_iff.mp h
      obtain ⟨rfl, rfl⟩ := Prod.mk.inj heq
      obtain ⟨hquote, hcount⟩ := ih hscan
      refine ⟨hquote, ?_⟩
      rw [List.take_succ_cons, List.take_succ_cons, width_escape]
      omega
  | case5 b rest hquote hback ih =>
      obtain ⟨⟨m, k⟩, hscan, heq⟩ := Option.map_eq_some_iff.mp h
      obtain ⟨rfl, rfl⟩ := Prod.mk.inj heq
      obtain ⟨hquote, hcount⟩ := ih hscan
      refine ⟨hquote, ?_⟩
      rw [List.take_succ_cons, width_cons_of_ne hback]
      omega

/-! ## Inside the allocation -/

variable {content : Str} {inputEnd pos room fuel : Nat} {out : Str}

/-- What is left of the string literal at `pos`. -/
def left (content : Str) (inputEnd pos : Nat) : Str := (content.drop pos).take (inputEnd - pos)

theorem left_cons (hlt : pos < inputEnd) (hb : content[pos]? = some b) :
    left content inputEnd pos = b :: left content inputEnd (pos + 1) := by
  obtain ⟨hpos, rfl⟩ := List.getElem?_eq_some_iff.mp hb
  have hcount : inputEnd - pos = inputEnd - (pos + 1) + 1 := by omega
  unfold left
  rw [List.drop_eq_getElem_cons hpos, hcount, List.take_succ_cons]

theorem left_nil (h : inputEnd ≤ pos) : left content inputEnd pos = [] := by
  rw [left, Nat.sub_eq_zero_of_le h, List.take_zero]

theorem left_drop (content : Str) (inputEnd pos k : Nat) :
    left content inputEnd (pos + k) = (left content inputEnd pos).drop k := by
  unfold left
  rw [List.drop_take, List.drop_drop, Nat.sub_add_eq]

/-- The digits that a result of `parse_hex4` other than 0 was read from. -/
def HexDigits (content : Str) (p n : Nat) : Prop :=
  ∀ i < n, ∃ b, content[p + i]? = some b ∧ (Hex.value b).isSome = true

theorem HexDigits.cons {p n d : Nat} (hb : content[p]? = some b) (hd : Hex.value b = some d)
    (h : HexDigits content (p + 1) n) : HexDigits content p (n + 1) := by
  intro i hi
  cases i with
  | zero => exact ⟨b, hb, by rw [hd]; rfl⟩
  | succ i =>
      have hnext := h i (Nat.lt_of_succ_lt_succ hi)
      rwa [Nat.add_right_comm] at hnext

theorem hex4Loop_sat (n p h : Nat) (hin : p + (n + 1) ≤ content.length) {E : Failure → Prop} :
    Sat (hex4Loop content (n + 1) p h)
      (fun r => r < (h + 16) * 16 ^ n ∧ (r ≠ 0 → HexDigits content p (n + 1))) E := by
  induction n generalizing p h with
  | zero =>
      rw [hex4Loop]
      refine Sat.bind (read_sat (by omega)) (fun b hb => ?_)
      cases hd : Hex.value b with
      | none => exact ⟨by omega, fun hne => absurd rfl hne⟩
      | some d =>
          have hlt := Hex.value_lt hd
          refine ⟨?_, fun _ => HexDigits.cons hb hd (fun i hi => absurd hi (Nat.not_lt_zero i))⟩
          show h + d < (h + 16) * 1
          omega
  | succ n ih =>
      rw [hex4Loop]
      refine Sat.bind (read_sat (by omega)) (fun b hb => ?_)
      cases hd : Hex.value b with
      | none => exact ⟨Nat.mul_pos (by omega) (Nat.pow_pos (by omega)), fun hne => absurd rfl hne⟩
      | some d =>
          have hlt := Hex.value_lt hd
          have hshift : (h + d) <<< 4 + 16 ≤ (h + 16) * 16 := by
            rw [Nat.shiftLeft_eq]
            omega
          refine (ih (p + 1) ((h + d) <<< 4) (by omega)).mono (fun r hr => ?_) (fun _ he => he)
          refine ⟨Nat.lt_of_lt_of_le hr.1 ?_, fun hne => HexDigits.cons hb hd (hr.2 hne)⟩
          rw [Nat.pow_succ, Nat.mul_comm (16 ^ n), ← Nat.mul_assoc]
          exact Nat.mul_le_mul_right _ hshift

/-- **The result of `parse_hex4`** fits 16 bits, and is 0 unless all four characters are digits. -/
theorem parseHex4_sat {p : Nat} (hin : p + 4 ≤ content.length) {E : Failure → Prop} :
    Sat (parseHex4 content p) (fun r => r < 0x10000 ∧ (r ≠ 0 → HexDigits content p 4)) E :=
  hex4Loop_sat 3 p 0 hin

/-! ### The bytes of a code point -/

theorem length_encodeLoop (n codepoint : Nat) (out : Str) :
    (encodeLoop n codepoint out).2.length = n + out.length := by
  induction n generalizing codepoint out with
  | zero => exact (Nat.zero_add _).symm
  | succ n ih =>
      rw [encodeLoop, ih, List.length_cons]
      omega

theorem length_encodeAs (k mark codepoint : Nat) : (encodeAs (k + 1) mark codepoint).length = k + 1 := by
  have hlen := length_encodeLoop k codepoint []
  unfold encodeAs
  dsimp only
  split
  · rw [List.length_cons, Nat.add_sub_cancel, hlen, List.length_nil]
  · rw [List.length_cons, Nat.add_sub_cancel, hlen, List.length_nil]

theorem length_encodeUtf8 {codepoint : Nat} {bytes : Str} (h : encodeUtf8 codepoint = some bytes) :
    bytes.length ≤ 4 ∧ (codepoint < 0x10000 → bytes.length ≤ 3) ∧ (codepoint = 0 → bytes.length = 1) := by
  unfold encodeUtf8 at h
  split at h
  · obtain rfl := Option.some.inj h
    rw [length_encodeAs]
    omega
  · split at h
    · obtain rfl := Option.some.inj h
      rw [length_encodeAs]
      omega
    · split at h
      · obtain rfl := Option.some.inj h
        rw [length_encodeAs]
        omega
      · split at h
        · obtain rfl := Option.some.inj h
          rw [length_encodeAs]
          omega
        · cases h

theorem HexDigits.tail {p n : Nat} (h : HexDigits content p (n + 1)) : HexDigits content (p + 1) n := by
  intro i hi
  have hnext := h (i + 1) (Nat.succ_lt_succ hi)
  rwa [← Nat.add_assoc, Nat.add_right_comm] at hnext

/-- Digits count one each. -/
theorem width_digits {p n : Nat} (h : HexDigits content p n) (hin : p + n ≤ inputEnd) :
    width (left content inputEnd p) = n + width (left content inputEnd (p + n)) := by
  induction n generalizing p with
  | zero => exact (Nat.zero_add _).symm
  | succ n ih =>
      obtain ⟨b, hb, hd⟩ := h 0 (Nat.succ_pos n)
      rw [Nat.add_zero] at hb
      have hne : b ≠ backslash := by
        rintro rfl
        cases hd
      rw [left_cons (by omega) hb, width_cons_of_ne hne, ih h.tail (by omega), Nat.add_right_comm p 1 n,
        Nat.add_assoc p n 1]
      omega

/-- An escape sequence counts one, and what stands behind its two characters. -/
theorem width_sequence (hlt : pos + 1 < inputEnd) (hback : content[pos]? = some backslash)
    (he : content[pos + 1]? = some e) :
    width (left content inputEnd pos) = width (left content inputEnd (pos + 2)) + 1 := by
  rw [left_cons (by omega) hback, left_cons hlt he, width_escape]

/-- **A literal** writes no more than the scan counts for it: of four digits each counts, and without them
    a single byte is written. -/
theorem utf16_sat (hend : inputEnd ≤ content.length) (hback : content[pos]? = some backslash)
    (hunicode : content[pos + 1]? = some unicode) {E : Failure → Prop} :
    Sat (utf16LiteralToUtf8 content pos inputEnd) (fun r => ∀ x ∈ r, pos + x.2 ≤ inputEnd ∧ 0 < x.2 ∧
      x.1.length + width (left content inputEnd (pos + x.2)) ≤ width (left content inputEnd pos)) E := by
  unfold utf16LiteralToUtf8
  refine Sat.ite (fun _ => nofun) (fun hlong => ?_)
  have hwidth : width (left content inputEnd pos) = width (left content inputEnd (pos + 2)) + 1 :=
    width_sequence (by omega) hback hunicode
  refine Sat.bind (parseHex4_sat (by omega)) (fun firstCode hfirst => ?_)
  refine Sat.ite (fun _ => nofun) (fun hlow => Sat.ite (fun hhigh => ?_) (fun hplain => ?_))
  · -- a pair of surrogates, neither of them 0
    refine Sat.ite (fun _ => nofun) (fun hlong2 => ?_)
    have hdigits : width (left content inputEnd (pos + 2)) = 4 + width (left content inputEnd (pos + 6)) :=
      width_digits (hfirst.2 (by omega)) (by omega)
    refine Sat.bind (read_sat (by omega)) (fun b hb => Sat.ite (fun _ => nofun) (fun hisback => ?_))
    refine Sat.bind (read_sat (by omega)) (fun e he => Sat.ite (fun _ => nofun) (fun hisunicode => ?_))
    obtain rfl := not_not.mp hisback
    obtain rfl := not_not.mp hisunicode
    have hwidth2 : width (left content inputEnd (pos + 6)) = width (left content inputEnd (pos + 8)) + 1 :=
      width_sequence (by omega) hb he
    refine Sat.bind (parseHex4_sat (by omega)) (fun secondCode hsecond => ?_)
    refine Sat.ite (fun _ => nofun) (fun hrange => ?_)
    have hdigits2 : width (left content inputEnd (pos + 8)) = 4 + width (left content inputEnd (pos + 12)) :=
      width_digits (hsecond.2 (by omega)) (by omega)
    refine Sat.pure (fun x hx => ?_)
    obtain ⟨bytes, hbytes, rfl⟩ := Option.map_eq_some_iff.mp hx
    have hlen := (length_encodeUtf8 hbytes).1
    refine ⟨by omega, by omega, ?_⟩
    show bytes.length + width (left content inputEnd (pos + 12)) ≤ width (left content inputEnd pos)
    omega
  · refine Sat.pure (fun x hx => ?_)
    obtain ⟨bytes, hbytes, rfl⟩ := Option.map_eq_some_iff.mp hx
    obtain ⟨-, hlen, hone⟩ := length_encodeUtf8 hbytes
    have hlen := hlen hfirst.1
    refine ⟨by omega, by omega, ?_⟩
    show bytes.length + width (left content inputEnd (pos + 6)) ≤ width (left content inputEnd pos)
    by_cases hzero : firstCode = 0
    · have hone := hone hzero
      have hdrop := width_drop_le 4 (left content inputEnd (pos + 2))
      rw [← left_drop, Nat.add_assoc] at hdrop
      change width (left content inputEnd (pos + 6)) ≤ _ at hdrop
      omega
    · have hdigits : width (left content inputEnd (pos + 2)) = 4 + width (left content inputEnd (pos + 6)) :=
        width_digits (hfirst.2 hzero) (by omega)
      omega

theorem emit_sat {bytes : Str} {E : Failure → Prop} (h : out.length + bytes.length ≤ room) :
    Sat (emit room out bytes) (fun out' => out'.length = out.length + bytes.length) E := by
  rw [emit, if_pos h]
  exact List.length_append

/-- A refusal inside the content. -/
def RefusedIn (content : Str) (e : Failure) : Prop := ∃ p ≤ content.length, e = .refused p

/-- **The output fits its allocation**, and nothing behind the closing quote is read. -/
theorem decode_sat (hend : inputEnd < content.length) (hfuel : 0 < fuel) (hpos : inputEnd < pos + fuel)
    (hroom : out.length + width (left content inputEnd pos) + 1 ≤ room) :
    Sat (decode content inputEnd room fuel pos out) (fun _ => True) (RefusedIn content) := by
  induction fuel generalizing pos out with
  | zero => exact absurd hfuel (Nat.lt_irrefl 0)
  | succ fuel ih =>
      rw [decode]
      refine Sat.ite (fun hlt => ?_) (fun hge => ?_)
      · refine Sat.bind (read_sat (by omega)) (fun b hb => Sat.ite (fun hne => ?_) (fun hback => ?_))
        · have hwidth := width_cons_of_ne (s := left content inputEnd (pos + 1)) hne
          rw [← left_cons hlt hb] at hwidth
          refine Sat.bind (emit_sat (by rw [List.length_singleton]; omega)) (fun out' hout' => ?_)
          rw [List.length_singleton] at hout'
          exact ih (by omega) (by omega) (by omega)
        · obtain rfl := not_not.mp hback
          refine Sat.bind (read_sat (by omega)) (fun e he => ?_)
          have hrefused : RefusedIn content (.refused pos) := ⟨pos, by omega, rfl⟩
          cases hx : escapeSequence e with
          | some x =>
              -- the second character may be the closing quote itself
              have hwidth : width (left content inputEnd (pos + 2)) + 1 ≤ width (left content inputEnd pos) := by
                by_cases hlast : pos + 1 < inputEnd
                · rw [width_sequence hlast hb he]
                · rw [left_cons hlt hb, left_nil (by omega), left_nil (by omega)]
                  exact Nat.le_refl 1
              refine Sat.bind (emit_sat (by rw [List.length_singleton]; omega)) (fun out' hout' => ?_)
              rw [List.length_singleton] at hout'
              exact ih (by omega) (by omega) (by omega)
          | none =>
              refine Sat.ite (fun hunicode => ?_) (fun _ => hrefused)
              subst hunicode
              refine Sat.bind (utf16_sat (Nat.le_of_lt hend) hb he) (fun r hr => ?_)
              cases r with
              | none => exact hrefused
              | some x =>
                  obtain ⟨bytes, sequenceLength⟩ := x
                  obtain ⟨hin, hlen, hwidth⟩ := hr _ rfl
                  dsimp only at hin hlen hwidth
                  refine Sat.bind (emit_sat (by omega)) (fun out' hout' => ?_)
                  exact ih (by omega) (by omega) (by omega)
      · exact (emit_sat (by rw [List.length_singleton]; omega)).mono (fun _ _ => trivial) (fun _ he => he)

/-- What a parse from `offset` may end with: something that meets `P`, at an offset behind it and inside the
    content, or a refusal. -/
def Gives {α : Type} (P : α → Prop) (content : Str) (offset : Nat) (r : Parsed (α × Nat)) : Prop :=
  Sat r (fun x => P x.1 ∧ offset < x.2 ∧ x.2 < content.length) (RefusedIn content)

/-- The content ends with a NUL, so behind any other character it goes on. -/
theorem succ_lt_length {i : Nat} (hnul : content.getLast? = some 0) (hb : content[i]? = some b) (hne : b ≠ 0) :
    i + 1 < content.length := by
  have hlt := (List.getElem?_eq_some_iff.mp hb).1
  have hlast : i + 1 ≠ content.length := by
    intro heq
    rw [List.getLast?_eq_getElem?, ← heq, Nat.add_sub_cancel, hb] at hnul
    exact hne (Option.some.inj hnul)
  omega

/-- **`parse_string` stays inside the content and its allocation**, and ends, wherever it is started. -/
theorem parseString_gives {offset : Nat} (hnul : content.getLast? = some 0) (hlt : offset < content.length) :
    Gives (fun s => (0 : UInt8) ∉ s) content offset (parseString content offset) := by
  unfold Gives parseString
  refine Sat.bind (read_sat hlt) (fun b hb => ?_)
  have hrefused : RefusedIn content (.refused (offset + 1)) := ⟨offset + 1, hlt, rfl⟩
  refine Sat.ite (fun _ => hrefused) (fun _ => ?_)
  cases hscan : scan (content.drop (offset + 1)) with
  | none => exact hrefused
  | some x =>
      obtain ⟨n, skippedBytes⟩ := x
      obtain ⟨hquote, hcount⟩ := scan_spec hscan
      rw [List.getElem?_drop] at hquote
      have hend : offset + 1 + n < content.length := (List.getElem?_eq_some_iff.mp hquote).1
      have hleft : left content (offset + 1 + n) (offset + 1) = (content.drop (offset + 1)).take n := by
        rw [left, Nat.add_sub_cancel_left]
      have hdecode : Sat (decode content (offset + 1 + n) (offset + 1 + n - offset - skippedBytes + 1) (n + 1)
          (offset + 1) []) (fun _ => True) (RefusedIn content) := by
        apply decode_sat hend (Nat.succ_pos n)
        · omega
        · rw [hleft, List.length_nil]
          omega
      refine Sat.bind hdecode (fun output _ => ?_)
      exact ⟨not_mem_cStr output, Nat.lt_of_lt_of_le (Nat.lt_succ_self offset) (by omega),
        succ_lt_length hnul hquote (by decide)⟩

end CJson
end AstraeaGateway
