import AstraeaGateway.CJson.ParseString

/-!
# `CJson.StringText` — strings are read as JSON has them

`Body s t`: between quotes, `t` stands for the bytes `s`, with every escape sequence of JSON, pairs of
surrogates included. `parseString_body`: `parse_string` reads each such text as what it stands for. The bit
operations of `utf16_literal_to_utf8` are UTF-8 as Lean has it (`encodeUtf8_char`).
-/

namespace AstraeaGateway
namespace CJson

open Checked Json Http

/-! ## UTF-8 -/

/-- `(codepoint | 0x80) & 0xBF` -/
theorem continuation_byte (n : Nat) : (n ||| 0x80) &&& 0xBF = n % 64 + 0x80 := by
  have hsmall : ∀ m < 256, (m ||| 0x80) &&& 0xBF = m % 64 + 0x80 := by decide +kernel
  have hlt : (n ||| 0x80) &&& 0xBF < 2 ^ 8 := Nat.lt_of_le_of_lt Nat.and_le_right (by decide)
  have hmod : ((n ||| 0x80) &&& 0xBF) % 2 ^ 8 = (n % 2 ^ 8 ||| 0x80 % 2 ^ 8) &&& 0xBF % 2 ^ 8 := by
    rw [Nat.and_mod_two_pow, Nat.or_mod_two_pow]
  rw [Nat.mod_eq_of_lt hlt] at hmod
  rw [hmod]
  refine (hsmall (n % 256) (Nat.mod_lt _ (by decide))).trans ?_
  omega

/-- `(codepoint | first_byte_mark) & 0xFF`, where the mark leaves room for what is left of the code point. -/
theorem lead_byte : (∀ n < 0x20, (n ||| 0xC0) &&& 0xFF = n % 0x20 + 0xC0) ∧
    (∀ n < 0x10, (n ||| 0xE0) &&& 0xFF = n % 0x10 + 0xE0) ∧
    (∀ n < 0x08, (n ||| 0xF0) &&& 0xFF = n % 0x08 + 0xF0) := by decide

theorem char_le (c : Char) : c.toNat ≤ 0x10FFFF := by
  have h := c.valid
  simp only [UInt32.isValidChar, Nat.isValidChar] at h
  show c.val.toNat ≤ _
  omega

/-- **A code point is written in UTF-8.** -/
theorem encodeUtf8_char (c : Char) : encodeUtf8 c.toNat = some (String.utf8EncodeChar c) := by
  obtain ⟨htwo, hthree, hfour⟩ := lead_byte
  have hmax := char_le c
  unfold encodeUtf8 String.utf8EncodeChar
  rw [show c.val.toNat = c.toNat from rfl]
  generalize c.toNat = n at hmax
  dsimp only
  rcases Nat.lt_or_ge n 0x80 with hone | hge1
  · have hmask : n &&& 0x7F = n := by
      rw [Nat.and_two_pow_sub_one_eq_mod n 7]
      exact Nat.mod_eq_of_lt hone
    rw [if_pos hone, if_pos (Nat.le_of_lt_succ hone)]
    simp [encodeAs, encodeLoop, hmask]
  · rw [if_neg (Nat.not_lt.mpr hge1), if_neg (Nat.not_le.mpr hge1)]
    rcases Nat.lt_or_ge n 0x800 with h2 | hge2
    · rw [if_pos h2, if_pos (Nat.le_of_lt_succ h2)]
      simp [encodeAs, encodeLoop, continuation_byte, Nat.shiftRight_eq_div_pow, htwo (n / 64) (by omega)]
    · rw [if_neg (Nat.not_lt.mpr hge2), if_neg (Nat.not_le.mpr hge2)]
      rcases Nat.lt_or_ge n 0x10000 with h3 | hge3
      · rw [if_pos h3, if_pos (Nat.le_of_lt_succ h3)]
        simp [encodeAs, encodeLoop, continuation_byte, Nat.shiftRight_eq_div_pow, Nat.div_div_eq_div_mul,
          hthree (n / 4096) (by omega)]
      · rw [if_neg (Nat.not_lt.mpr hge3), if_neg (Nat.not_le.mpr hge3), if_pos hmax]
        simp [encodeAs, encodeLoop, continuation_byte, Nat.shiftRight_eq_div_pow, Nat.div_div_eq_div_mul,
          hfour (n / 262144) (by omega)]

theorem codepoint_ne_surrogate (c : Char) : ¬ (0xD800 ≤ c.toNat ∧ c.toNat ≤ 0xDFFF) := by
  have h := c.valid
  simp only [UInt32.isValidChar, Nat.isValidChar] at h
  rintro ⟨hlow, hhigh⟩
  change _ ≤ c.val.toNat at hlow
  change c.val.toNat ≤ _ at hhigh
  omega

theorem length_utf8EncodeChar (c : Char) :
    (String.utf8EncodeChar c).length ≤ 4 ∧ (c.toNat < 0x10000 → (String.utf8EncodeChar c).length ≤ 3) := by
  obtain ⟨hfour, hthree, -⟩ := length_encodeUtf8 (encodeUtf8_char c)
  exact ⟨hfour, hthree⟩

/-! ## What stands between quotes -/

/-- Four hexadecimal digits, of either case, and their number. -/
inductive FourDigits : Str → Nat → Prop
  | mk {a b c d : UInt8} {w x y z : Nat} (ha : Hex.value a = some w) (hb : Hex.value b = some x)
      (hc : Hex.value c = some y) (hd : Hex.value d = some z) :
      FourDigits [a, b, c, d] (((w * 16 + x) * 16 + y) * 16 + z)

/-- `Body s t`: between quotes, `t` stands for the bytes `s`. A character outside the first plane is written
    by itself or as a pair of surrogates. Control characters other than NUL may stand for themselves. -/
inductive Body : Str → Str → Prop
  | nil : Body [] []
  | plain {b : UInt8} {s t : Str} (hquote : b ≠ quote) (hback : b ≠ backslash) (hnul : b ≠ 0) (h : Body s t) :
      Body (b :: s) (b :: t)
  | short {b e : UInt8} {s t : Str} (he : shortEscape e = some b) (h : Body s t) :
      Body (b :: s) (backslash :: e :: t)
  | unicode {c : Char} {digits s t : Str} (hdigits : FourDigits digits c.toNat) (h : Body s t) :
      Body (String.utf8EncodeChar c ++ s) (backslash :: unicode :: (digits ++ t))
  | pair {c : Char} {high low s t : Str} (hchar : 0x10000 ≤ c.toNat)
      (hhigh : FourDigits high (0xD800 + (c.toNat - 0x10000) / 1024))
      (hlow : FourDigits low (0xDC00 + (c.toNat - 0x10000) % 1024)) (h : Body s t) :
      Body (String.utf8EncodeChar c ++ s)
        (backslash :: unicode :: (high ++ backslash :: unicode :: (low ++ t)))

theorem escapeSequence_of_shortEscape {b e : UInt8} (h : shortEscape e = some b) : escapeSequence e = some b := by
  unfold shortEscape at h
  split_ifs at h <;> subst_vars <;> obtain rfl := Option.some.inj h <;> rfl

/-! ## The scan -/

variable {content rest s t digits : Str} {b e : UInt8} {pos inputEnd room fuel n h : Nat} {out : Str}

theorem FourDigits.length_eq (hdigits : FourDigits digits n) : digits.length = 4 := by
  cases hdigits
  rfl

theorem FourDigits.plain (hdigits : FourDigits digits n) : ∀ x ∈ digits, x ≠ quote ∧ x ≠ backslash ∧ x ≠ 0 := by
  have hvalue : ∀ {x : UInt8} {k : Nat}, Hex.value x = some k → x ≠ quote ∧ x ≠ backslash ∧ x ≠ 0 := by
    intro x k hx
    refine ⟨?_, ?_, ?_⟩ <;> rintro rfl <;> cases hx
  cases hdigits with
  | mk ha hb hc hd => simp [hvalue ha, hvalue hb, hvalue hc, hvalue hd]

/-- Characters that the scan passes one by one. -/
theorem scan_append {l : Str} (hl : ∀ x ∈ l, x ≠ quote ∧ x ≠ backslash ∧ x ≠ 0) :
    scan (l ++ rest) = (scan rest).map (fun (n, skipped) => (n + l.length, skipped)) := by
  induction l with
  | nil => simp
  | cons b l ih =>
      obtain ⟨⟨hquote, hback, -⟩, hl⟩ := List.forall_mem_cons.mp hl
      rw [List.cons_append, scan.eq_def]
      simp only [hquote, hback, if_false]
      rw [ih hl, Option.map_map]
      rfl

theorem scan_escape (hback : b = backslash) :
    scan (b :: e :: rest) = (scan rest).map (fun (n, skipped) => (n + 2, skipped + 1)) := by
  subst hback
  rw [scan.eq_def]
  rfl

/-- **The scan** ends at the closing quote. -/
theorem scan_body (hbody : Body s t) (rest : Str) :
    ∃ skipped, scan (t ++ quote :: rest) = some (t.length, skipped) := by
  induction hbody with
  | nil =>
      refine ⟨0, ?_⟩
      rw [List.nil_append, scan.eq_def]
      exact if_pos rfl
  | @plain b s t hquote hback hnul _ ih =>
      obtain ⟨skipped, hscan⟩ := ih
      refine ⟨skipped, ?_⟩
      show scan ([b] ++ (t ++ quote :: rest)) = _
      rw [scan_append (List.forall_mem_singleton.mpr ⟨hquote, hback, hnul⟩), hscan]
      rfl
  | short _ _ ih =>
      obtain ⟨skipped, hscan⟩ := ih
      refine ⟨skipped + 1, ?_⟩
      rw [List.cons_append, List.cons_append, scan_escape rfl, hscan]
      rfl
  | unicode hdigits _ ih =>
      obtain ⟨skipped, hscan⟩ := ih
      refine ⟨skipped + 1, ?_⟩
      simp only [List.cons_append, List.append_assoc]
      rw [scan_escape rfl, scan_append hdigits.plain, hscan]
      simp only [Option.map_some, List.length_cons, List.length_append]
      congr 2
      omega
  | pair hchar hhigh hlow _ ih =>
      obtain ⟨skipped, hscan⟩ := ih
      refine ⟨skipped + 2, ?_⟩
      simp only [List.cons_append, List.append_assoc]
      rw [scan_escape rfl, scan_append hhigh.plain, scan_escape rfl, scan_append hlow.plain, hscan]
      simp only [Option.map_some, List.length_cons, List.length_append]
      congr 2
      omega

/-! ## The decoding loop -/

theorem emit_of_le {bytes : Str} (hroom : out.length + bytes.length ≤ room) :
    emit room out bytes = .ok (out ++ bytes) := if_pos hroom

/-- One digit. -/
theorem hex4Loop_digit {d : Nat} (hdrop : content.drop pos = b :: rest) (hvalue : Hex.value b = some d) :
    hex4Loop content (n + 1) pos h = hex4Loop content n (pos + 1) (if n = 0 then h + d else (h + d) <<< 4) := by
  rw [hex4Loop, bind_of_ok (read_of_drop hdrop), hvalue]

theorem parseHex4_digits (hdrop : content.drop pos = digits ++ rest) (hdigits : FourDigits digits n) :
    parseHex4 content pos = .ok n := by
  cases hdigits with
  | mk ha hb hc hd =>
      have hdrop1 := drop_succ_of_drop hdrop
      have hdrop2 := drop_succ_of_drop hdrop1
      have hdrop3 := drop_succ_of_drop hdrop2
      rw [parseHex4, hex4Loop_digit hdrop ha, hex4Loop_digit hdrop1 hb, hex4Loop_digit hdrop2 hc,
        hex4Loop_digit hdrop3 hd]
      simp [hex4Loop, Nat.shiftLeft_eq]

theorem utf16_char {c : Char} (hdrop : content.drop pos = backslash :: unicode :: (digits ++ rest))
    (hdigits : FourDigits digits c.toNat) (hend : pos + 6 ≤ inputEnd) :
    utf16LiteralToUtf8 content pos inputEnd = .ok (some (String.utf8EncodeChar c, 6)) := by
  have hcode := parseHex4_digits (drop_succ_of_drop (drop_succ_of_drop hdrop)) hdigits
  have hne := codepoint_ne_surrogate c
  unfold utf16LiteralToUtf8
  rw [if_neg (Nat.not_lt.mpr hend), bind_of_ok hcode]
  show (if _ then _ else if _ then _ else _) = _
  rw [if_neg (by omega), if_neg (by omega), encodeUtf8_char]
  rfl

/-- The code point of two surrogates. -/
theorem codepoint_of_pair {high low : Nat} (hhigh : high < 1024) (hlow : low < 1024) :
    0x10000 + (((0xD800 + high) &&& 0x3FF) <<< 10 ||| (0xDC00 + low) &&& 0x3FF) = 0x10000 + high * 1024 + low := by
  have hmask : ∀ n, n &&& 0x3FF = n % 1024 := fun n => Nat.and_two_pow_sub_one_eq_mod n 10
  have hshift : (high <<< 10 ||| low) = high * 1024 + low := by
    rw [← Nat.shiftLeft_add_eq_or_of_lt (show low < 2 ^ 10 from hlow), Nat.shiftLeft_eq]
  have hfirst : (0xD800 + high) % 1024 = high := by omega
  have hsecond : (0xDC00 + low) % 1024 = low := by omega
  rw [hmask, hmask, hfirst, hsecond, hshift]
  omega

theorem utf16_pair {c : Char} {high low : Str} (hchar : 0x10000 ≤ c.toNat)
    (hdrop : content.drop pos = backslash :: unicode :: (high ++ backslash :: unicode :: (low ++ rest)))
    (hhigh : FourDigits high (0xD800 + (c.toNat - 0x10000) / 1024))
    (hlow : FourDigits low (0xDC00 + (c.toNat - 0x10000) % 1024)) (hend : pos + 12 ≤ inputEnd) :
    utf16LiteralToUtf8 content pos inputEnd = .ok (some (String.utf8EncodeChar c, 12)) := by
  have hmax := char_le c
  have hdrop2 := drop_succ_of_drop (drop_succ_of_drop hdrop)
  have hdrop6 : content.drop (pos + 6) = backslash :: unicode :: (low ++ rest) := by
    have hbehind := drop_add_of_drop hdrop2
    rwa [hhigh.length_eq] at hbehind
  have hfirst := parseHex4_digits hdrop2 hhigh
  have hsecond := parseHex4_digits (drop_succ_of_drop (drop_succ_of_drop hdrop6)) hlow
  have hcode := codepoint_of_pair (show (c.toNat - 0x10000) / 1024 < 1024 by omega)
    (show (c.toNat - 0x10000) % 1024 < 1024 by omega)
  unfold utf16LiteralToUtf8
  rw [if_neg (by omega), bind_of_ok hfirst]
  show (if _ then _ else if _ then _ else _) = _
  rw [if_neg (by omega), if_pos (by omega), if_neg (by omega), bind_of_ok (read_of_drop hdrop6)]
  show (if _ then _ else _) = _
  rw [if_neg (not_not.mpr rfl), bind_of_ok (read_of_drop (drop_succ_of_drop hdrop6))]
  show (if _ then _ else _) = _
  rw [if_neg (not_not.mpr rfl), bind_of_ok hsecond]
  show (if _ then _ else _) = _
  rw [if_neg (by omega), hcode, show 0x10000 + (c.toNat - 0x10000) / 1024 * 1024 + (c.toNat - 0x10000) % 1024
    = c.toNat by omega]
  dsimp only
  rw [encodeUtf8_char]
  rfl

/-- One iteration over a character that stands for itself. -/
theorem decode_plain (hdrop : content.drop pos = b :: rest) (hend : pos < inputEnd) (hback : b ≠ backslash)
    (hroom : out.length + 1 ≤ room) :
    decode content inputEnd room (fuel + 1) pos out = decode content inputEnd room fuel (pos + 1) (out ++ [b]) := by
  rw [decode, if_pos hend, bind_of_ok (read_of_drop hdrop)]
  show (if _ then _ else _) = _
  rw [if_pos hback, bind_of_ok (emit_of_le hroom)]

theorem decode_short (hdrop : content.drop pos = backslash :: e :: rest) (hend : pos < inputEnd)
    (he : shortEscape e = some b) (hroom : out.length + 1 ≤ room) :
    decode content inputEnd room (fuel + 1) pos out = decode content inputEnd room fuel (pos + 2) (out ++ [b]) := by
  rw [decode, if_pos hend, bind_of_ok (read_of_drop hdrop)]
  show (if _ then _ else _) = _
  rw [if_neg (not_not.mpr rfl), bind_of_ok (read_of_drop (drop_succ_of_drop hdrop)),
    escapeSequence_of_shortEscape he]
  dsimp only
  rw [bind_of_ok (emit_of_le hroom)]

/-- One iteration over the escape sequence of a code point. -/
theorem decode_utf16 {bytes : Str} (hdrop : content.drop pos = backslash :: unicode :: rest) (hend : pos < inputEnd)
    (hliteral : utf16LiteralToUtf8 content pos inputEnd = .ok (some (bytes, n)))
    (hroom : out.length + bytes.length ≤ room) :
    decode content inputEnd room (fuel + 1) pos out = decode content inputEnd room fuel (pos + n) (out ++ bytes) := by
  rw [decode, if_pos hend, bind_of_ok (read_of_drop hdrop)]
  show (if _ then _ else _) = _
  rw [if_neg (not_not.mpr rfl), bind_of_ok (read_of_drop (drop_succ_of_drop hdrop)),
    show escapeSequence unicode = none from rfl]
  dsimp only
  rw [if_pos rfl, bind_of_ok hliteral]
  dsimp only
  rw [bind_of_ok (emit_of_le hroom)]

/-- **The loop decodes the string**, whatever stands behind the closing quote. -/
theorem decode_body (hbody : Body s t) (hdrop : content.drop pos = t ++ rest) (hend : pos + t.length = inputEnd)
    (hfuel : t.length < fuel) (hroom : out.length + s.length + 1 ≤ room) :
    decode content inputEnd room fuel pos out = .ok (out ++ s ++ [0]) := by
  induction hbody generalizing pos fuel out with
  | nil =>
      obtain ⟨fuel, rfl⟩ := Nat.exists_eq_succ_of_ne_zero (Nat.ne_of_gt hfuel)
      rw [List.length_nil] at hend hroom
      rw [decode, if_neg (by omega), List.append_nil]
      exact emit_of_le (by rw [List.length_singleton]; omega)
  | plain hquote hback hnul _ ih =>
      obtain ⟨fuel, rfl⟩ := Nat.exists_eq_succ_of_ne_zero (Nat.ne_of_gt (Nat.zero_lt_of_lt hfuel))
      rw [List.length_cons] at hend hfuel hroom
      rw [decode_plain hdrop (by omega) hback (by omega), ih (drop_succ_of_drop hdrop) (by omega) (by omega)]
      · simp
      · rw [List.length_append, List.length_singleton]
        omega
  | short he _ ih =>
      obtain ⟨fuel, rfl⟩ := Nat.exists_eq_succ_of_ne_zero (Nat.ne_of_gt (Nat.zero_lt_of_lt hfuel))
      simp only [List.length_cons] at hend hfuel hroom
      rw [decode_short hdrop (by omega) he (by omega),
        ih (drop_succ_of_drop (drop_succ_of_drop hdrop)) (by omega) (by omega)]
      · simp
      · rw [List.length_append, List.length_singleton]
        omega
  | @unicode c digits s t hdigits _ ih =>
      obtain ⟨fuel, rfl⟩ := Nat.exists_eq_succ_of_ne_zero (Nat.ne_of_gt (Nat.zero_lt_of_lt hfuel))
      have hfour := hdigits.length_eq
      simp only [List.length_cons, List.length_append, hfour] at hend hfuel hroom
      have hdrop' : content.drop pos = backslash :: unicode :: (digits ++ (t ++ rest)) := by
        rw [hdrop]
        simp
      have hnext : content.drop (pos + 6) = t ++ rest := by
        have hbehind := drop_add_of_drop (drop_succ_of_drop (drop_succ_of_drop hdrop'))
        rwa [hfour] at hbehind
      rw [decode_utf16 hdrop' (by omega) (utf16_char hdrop' hdigits (by omega)) (by omega),
        ih hnext (by omega) (by omega)]
      · simp
      · rw [List.length_append]
        omega
  | @pair c high low s t hchar hhigh hlow _ ih =>
      obtain ⟨fuel, rfl⟩ := Nat.exists_eq_succ_of_ne_zero (Nat.ne_of_gt (Nat.zero_lt_of_lt hfuel))
      have hfour := hhigh.length_eq
      have hfour' := hlow.length_eq
      simp only [List.length_cons, List.length_append, hfour, hfour'] at hend hfuel hroom
      have hdrop' : content.drop pos
          = backslash :: unicode :: (high ++ backslash :: unicode :: (low ++ (t ++ rest))) := by
        rw [hdrop]
        simp
      have hnext : content.drop (pos + 12) = t ++ rest := by
        have hsecond := drop_add_of_drop (drop_succ_of_drop (drop_succ_of_drop hdrop'))
        have hbehind := drop_add_of_drop (drop_succ_of_drop (drop_succ_of_drop hsecond))
        rwa [hfour, hfour'] at hbehind
      rw [decode_utf16 hdrop' (by omega) (utf16_pair hchar hdrop' hhigh hlow (by omega)) (by omega),
        ih hnext (by omega) (by omega)]
      · simp
      · rw [List.length_append]
        omega

/-- What is decoded is at most as long as what the scan counts. -/
theorem Body.length_le (hbody : Body s t) : s.length ≤ width t := by
  induction hbody with
  | nil => exact Nat.le_refl 0
  | plain _ hback _ _ ih =>
      rw [width_cons_of_ne hback]
      exact Nat.succ_le_succ ih
  | short _ _ ih =>
      rw [width_escape]
      exact Nat.succ_le_succ ih
  | @unicode c _ _ _ hdigits _ ih =>
      have hfour := (length_utf8EncodeChar c).1
      rw [width_escape, width_append (fun x hx => (hdigits.plain x hx).2.1), hdigits.length_eq, List.length_append]
      omega
  | @pair c _ _ _ _ _ hhigh hlow _ ih =>
      have hfour := (length_utf8EncodeChar c).1
      rw [width_escape, width_append (fun x hx => (hhigh.plain x hx).2.1), width_escape,
        width_append (fun x hx => (hlow.plain x hx).2.1), hlow.length_eq, List.length_append]
      omega

theorem cStr_concat_nul (s : Str) : cStr (s ++ [0]) = cStr s := by
  induction s with
  | nil => rfl
  | cons b s ih =>
      unfold cStr at ih ⊢
      rw [List.cons_append, List.takeWhile_cons, List.takeWhile_cons, ih]

/-- **`parse_string` reads a string** as a C string, which ends at a decoded NUL. -/
theorem parseString_body (hbody : Body s t) (hdrop : content.drop pos = quote :: (t ++ quote :: rest)) :
    parseString content pos = .ok (cStr s, pos + 1 + t.length + 1) := by
  obtain ⟨skipped, hscan⟩ := scan_body hbody rest
  have hcount := (scan_spec hscan).2
  rw [List.take_left] at hcount
  have hle := hbody.length_le
  have hdrop' := drop_succ_of_drop hdrop
  rw [parseString, bind_of_ok (read_of_drop hdrop)]
  show (if _ then _ else _) = _
  rw [if_neg (not_not.mpr rfl), hdrop', hscan]
  dsimp only
  rw [bind_of_ok (decode_body hbody hdrop' rfl (Nat.lt_succ_self _) (by rw [List.length_nil]; omega)),
    List.nil_append, cStr_concat_nul]
  rfl

end CJson
end AstraeaGateway
