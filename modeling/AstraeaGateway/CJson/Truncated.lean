import AstraeaGateway.CJson.Posted

/-!
# `CJson.Truncated` — the body that the client posts

The client's copy of `restCallPostJsonAsync` posts one byte for each parameter, which is less than the text. No part
of an object's text that ends before its closing brace is accepted: each parser of the descent either finds its whole
text in what is left, or fails. So whoever reads the client's body with `cJSON_Parse` refuses it.
-/

namespace AstraeaGateway
namespace CJson

open Checked Json Http

/-- What the parser sees of the first `m` bytes of a text. -/
def firstBytes (m : Nat) (t : Str) : Str := t.take m ++ [0]

variable {content s t u rest : Str} {b : UInt8} {offset m : Nat}

theorem firstBytes_zero (t : Str) : firstBytes 0 t = [0] := by
  rw [firstBytes, List.take_zero, List.nil_append]

theorem firstBytes_succ (b : UInt8) (m : Nat) (t : Str) : firstBytes (m + 1) (b :: t) = b :: firstBytes m t := by
  rw [firstBytes, List.take_succ_cons, List.cons_append]
  rfl

theorem firstBytes_append (m : Nat) (u t : Str) : firstBytes m (u ++ t) = u.take m ++ firstBytes (m - u.length) t := by
  rw [firstBytes, List.take_append, List.append_assoc]
  rfl

/-- Behind a text that is there as a whole. -/
theorem drop_firstBytes (hdrop : content.drop offset = firstBytes m (u ++ t)) (hle : u.length ≤ m) :
    content.drop (offset + u.length) = firstBytes (m - u.length) t := by
  rw [firstBytes_append, List.take_of_length_le hle] at hdrop
  exact drop_add_of_drop hdrop

/-! ## Strings -/

theorem scan_zero : scan [0] = none := by
  rw [scan.eq_def]
  rfl

/-- The scan through characters that it passes one by one, some of which may be missing. -/
theorem scan_plain (hplain : ∀ x ∈ u, x ≠ quote ∧ x ≠ backslash ∧ x ≠ 0)
    (hnone : scan (firstBytes (m - u.length) t) = none) :
    scan (firstBytes m (u ++ t)) = none := by
  rw [firstBytes_append, scan_append (fun x hx => hplain x (List.mem_of_mem_take hx)), hnone]
  rfl

/-- The scan through an escape sequence, which may be cut behind its backslash. -/
theorem scan_cut {e : UInt8} (hnone : scan (firstBytes (m - 2) t) = none) :
    scan (firstBytes m (backslash :: e :: t)) = none := by
  match m with
  | 0 => rw [firstBytes_zero, scan_zero]
  | 1 =>
      rw [firstBytes_succ, firstBytes_zero, scan_escape rfl, scan.eq_def]
      rfl
  | m + 2 =>
      rw [firstBytes_succ, firstBytes_succ, scan_escape rfl]
      rw [Nat.add_sub_cancel] at hnone
      rw [hnone]
      rfl

/-- **Without its closing quote a string does not end.** -/
theorem scan_firstBytes (hbody : Body s t) (hle : m ≤ t.length) : scan (firstBytes m t) = none := by
  induction hbody generalizing m with
  | nil =>
      obtain rfl := Nat.le_zero.mp hle
      exact scan_zero
  | @plain b s t hquote hback hnul _ ih =>
      have hplain : ∀ x ∈ [b], x ≠ quote ∧ x ≠ backslash ∧ x ≠ 0 := List.forall_mem_singleton.mpr ⟨hquote, hback, hnul⟩
      rw [List.length_cons] at hle
      exact scan_plain hplain (ih (by rw [List.length_singleton]; omega))
  | short _ _ ih =>
      simp only [List.length_cons] at hle
      exact scan_cut (ih (by omega))
  | unicode hdigits _ ih =>
      simp only [List.length_cons, List.length_append] at hle
      exact scan_cut (scan_plain hdigits.plain (ih (by omega)))
  | pair _ hhigh hlow _ ih =>
      simp only [List.length_cons, List.length_append] at hle
      exact scan_cut (scan_plain hhigh.plain (scan_cut (scan_plain hlow.plain (ih (by omega)))))

/-- A string is parsed if it is there with both quotes, and only then. -/
theorem parseString_firstBytes (hbody : Body s t) (hdrop : content.drop offset = firstBytes m (quoted t ++ rest)) :
    Sat (parseString content offset)
      (fun x => (quoted t).length ≤ m ∧ x.2 = offset + (quoted t).length) (fun _ => True) := by
  have hlen : (quoted t).length = t.length + 2 := by
    rw [quoted, List.length_append, List.length_cons, List.length_singleton]
  by_cases hle : (quoted t).length ≤ m
  · rw [firstBytes_append, List.take_of_length_le hle] at hdrop
    have hstring : content.drop offset = quote :: (t ++ quote :: firstBytes (m - (quoted t).length) rest) := by
      rw [hdrop]
      simp [quoted]
    rw [parseString_body hbody hstring]
    refine ⟨hle, ?_⟩
    dsimp only
    omega
  · cases m with
    | zero =>
        rw [firstBytes_zero] at hdrop
        rw [parseString, bind_of_ok (read_of_drop hdrop)]
        exact trivial
    | succ m =>
        have hquoted : quoted t ++ rest = quote :: (t ++ quote :: rest) := by simp [quoted]
        rw [hquoted, firstBytes_succ] at hdrop
        have hcut : firstBytes m (t ++ quote :: rest) = firstBytes m t := by
          rw [firstBytes, firstBytes, List.take_append_of_le_length (by omega)]
        rw [parseString, bind_of_ok (read_of_drop hdrop)]
        show Sat (if _ then _ else _) _ _
        rw [if_neg (not_not.mpr rfl), drop_succ_of_drop hdrop, hcut, scan_firstBytes hbody (by omega)]
        exact trivial

/-! ## Members -/

variable {ν : Type} (libc : Libc ν)

/-- A text that starts with no blank is not moved, nor is the end. -/
theorem skipWhitespace_firstBytes (hdrop : content.drop offset = firstBytes m (b :: rest)) (hlt : 32 < b) :
    skipWhitespace content offset = offset := by
  cases m with
  | zero =>
      have hend : content.drop offset = [] ++ [0] := hdrop.trans (firstBytes_zero _)
      exact skipWhitespace_end hend nofun
  | succ m =>
      have hnext : content.drop offset = [] ++ b :: firstBytes m rest := hdrop.trans (firstBytes_succ b m rest)
      exact skipWhitespace_of_drop hnext nofun hlt

theorem getElem?_firstBytes (hdrop : content.drop offset = firstBytes m (b :: rest)) :
    content[offset]? = some (if m = 0 then 0 else b) := by
  cases m with
  | zero => exact getElem?_of_drop (hdrop.trans (firstBytes_zero _))
  | succ m => exact getElem?_of_drop (hdrop.trans (firstBytes_succ b m rest))

/-- A value that is a string. -/
theorem parseValue_firstBytes (hbody : Body s t) (hdrop : content.drop offset = firstBytes m (quoted t ++ rest))
    (levels : Nat) : Sat (parseValue libc content levels offset)
      (fun x => (quoted t).length ≤ m ∧ x.2 = offset + (quoted t).length) (fun _ => True) := by
  have hstring := parseString_firstBytes hbody hdrop
  cases m with
  | zero =>
      rw [firstBytes_zero] at hdrop
      rw [parseValue_of_head libc hdrop (by decide) (by decide) (by decide)]
      exact trivial
  | succ m =>
      rw [show quoted t ++ rest = quote :: (t ++ quote :: rest) by simp [quoted], firstBytes_succ] at hdrop
      rw [parseValue_of_head libc hdrop (by decide) (by decide) (by decide), if_pos rfl]
      cases hparse : parseString content offset with
      | error e => exact trivial
      | ok x =>
          rw [hparse] at hstring
          exact hstring

/-- A member is parsed if all of it is there. -/
theorem parseMember_firstBytes {x : Str × Str} (hkey : (0 : UInt8) ∉ x.1) (hvalue : (0 : UInt8) ∉ x.2) (hb : 32 < b)
    (hdrop : content.drop (offset + 1) = firstBytes m (member escaped x ++ b :: rest)) (levels : Nat) :
    Sat (parseMember (parseValue libc content levels) content offset)
      (fun y => (member escaped x).length ≤ m ∧ y.2 = offset + 1 + (member escaped x).length) (fun _ => True) := by
  have hlen : (member escaped x).length = (quoted (escaped x.1)).length + 1 + (quoted (escaped x.2)).length := by
    rw [member, List.length_append, List.length_cons]
    omega
  have hmember : member escaped x ++ b :: rest
      = quoted (escaped x.1) ++ colon :: (quoted (escaped x.2) ++ b :: rest) := by simp [member]
  rw [hmember] at hdrop
  have hskip : skipWhitespace content (offset + 1) = offset + 1 := skipWhitespace_firstBytes hdrop (by decide)
  unfold parseMember
  rw [hskip]
  refine Sat.bind (parseString_firstBytes (body_escaped hkey) hdrop) (fun y hy => ?_)
  obtain ⟨string, o⟩ := y
  obtain ⟨hname, ho⟩ := hy
  dsimp only at ho ⊢
  subst ho
  have hbehind := drop_firstBytes hdrop hname
  rw [skipWhitespace_firstBytes hbehind (by decide)]
  refine Sat.ite (fun hcolon => ?_) (fun _ => trivial)
  rw [getElem?_firstBytes hbehind] at hcolon
  have hleft : m - (quoted (escaped x.1)).length ≠ 0 := by
    intro hzero
    rw [if_pos hzero] at hcolon
    cases hcolon
  obtain ⟨k, hk⟩ := Nat.exists_eq_succ_of_ne_zero hleft
  rw [hk, firstBytes_succ] at hbehind
  have hafter := drop_succ_of_drop hbehind
  have hskip3 : skipWhitespace content (offset + 1 + (quoted (escaped x.1)).length + 1) = _ :=
    skipWhitespace_firstBytes hafter (by decide)
  rw [hskip3]
  refine Sat.bind (parseValue_firstBytes libc (body_escaped hvalue) hafter levels) (fun z hz => ?_)
  obtain ⟨item, o⟩ := z
  obtain ⟨hthere, ho⟩ := hz
  dsimp only at ho ⊢
  subst ho
  rw [skipWhitespace_firstBytes (drop_firstBytes hafter hthere) hb]
  refine ⟨by omega, ?_⟩
  dsimp only
  omega

/-- What follows a member: more members, and the closing brace. -/
def restText (l : List (Str × Str)) : Str := l.flatMap (fun y => comma :: member escaped y) ++ [closeBrace]

theorem restText_head (l : List (Str × Str)) : ∃ b tail, restText l = b :: tail ∧ 32 < b := by
  cases l with
  | nil => exact ⟨closeBrace, [], rfl, by decide⟩
  | cons y l => exact ⟨comma, member escaped y ++ restText l, by simp [restText], by decide⟩

/-- **The loop over the members** of a text that is cut off ends at no closing brace. -/
theorem parseMembers_firstBytes {x : Str × Str} {l : List (Str × Str)}
    (hnul : ∀ y ∈ x :: l, (0 : UInt8) ∉ y.1 ∧ (0 : UInt8) ∉ y.2)
    (hdrop : content.drop (offset + 1) = firstBytes m (member escaped x ++ restText l))
    (hcut : m < (member escaped x ++ restText l).length) (levels fuel : Nat) :
    Sat (parseMembers (parseValue libc content levels) content fuel offset)
      (fun y => content[y.2]? ≠ some closeBrace) (fun _ => True) := by
  induction fuel generalizing x l m offset with
  | zero => exact trivial
  | succ fuel ih =>
      obtain ⟨hx, hl⟩ := List.forall_mem_cons.mp hnul
      obtain ⟨b, tail, hrest, hb⟩ := restText_head l
      have hmember : content.drop (offset + 1) = firstBytes m (member escaped x ++ b :: tail) := by
        rw [hdrop, hrest]
      rw [parseMembers]
      refine Sat.bind (parseMember_firstBytes libc hx.1 hx.2 hb hmember levels) (fun y hy => ?_)
      obtain ⟨child, o⟩ := y
      obtain ⟨hthere, ho⟩ := hy
      dsimp only at ho ⊢
      subst ho
      have hbehind := drop_firstBytes hdrop hthere
      rw [List.length_append] at hcut
      cases l with
      | nil =>
          -- only the closing brace is missing
          have hnone : m - (member escaped x).length = 0 := by
            have hone : (restText []).length = 1 := rfl
            omega
          rw [hnone, firstBytes_zero] at hbehind
          have hend := getElem?_of_drop hbehind
          refine Sat.ite (fun hcomma => ?_) (fun _ => ?_)
          · rw [hend] at hcomma
            cases hcomma
          · show content[_]? ≠ some closeBrace
            rw [hend]
            decide
      | cons y l =>
          have hnext : restText (y :: l) = comma :: (member escaped y ++ restText l) := by simp [restText]
          rw [hnext] at hbehind hcut
          refine Sat.ite (fun hcomma => ?_) (fun _ => ?_)
          · rw [getElem?_firstBytes hbehind] at hcomma
            have hleft : m - (member escaped x).length ≠ 0 := by
              intro hzero
              rw [if_pos hzero] at hcomma
              cases hcomma
            obtain ⟨k, hk⟩ := Nat.exists_eq_succ_of_ne_zero hleft
            rw [hk, firstBytes_succ] at hbehind
            rw [List.length_cons] at hcut
            refine Sat.bind (ih hl (drop_succ_of_drop hbehind) (by omega)) (fun z hz => ?_)
            exact hz
          · show content[_]? ≠ some closeBrace
            rw [getElem?_firstBytes hbehind]
            split
            · decide
            · decide

/-! ## Objects -/

/-- An object is not parsed without its closing brace. -/
theorem parseObject_firstBytes {x : Str × Str} {l : List (Str × Str)}
    (hnul : ∀ y ∈ x :: l, (0 : UInt8) ∉ y.1 ∧ (0 : UInt8) ∉ y.2)
    (hdrop : content.drop (offset + 1) = firstBytes m (member escaped x ++ restText l))
    (hcut : m < (member escaped x ++ restText l).length) (levels : Nat) :
    Sat (parseObject (parseValue libc content levels) content offset) (fun _ => False) (fun _ => True) := by
  have hquote : content.drop (offset + 1)
      = firstBytes m (quote :: (escaped x.1 ++ quote :: (colon :: (quoted (escaped x.2) ++ restText l)))) := by
    rw [hdrop]
    simp [member, quoted]
  unfold parseObject
  rw [skipWhitespace_firstBytes hquote (by decide)]
  refine Sat.ite (fun _ => trivial) (fun _ => Sat.ite (fun hclose => ?_)
    (fun _ => Sat.ite (fun _ => trivial) (fun _ => ?_)))
  · rw [getElem?_firstBytes hquote] at hclose
    split at hclose
    · cases hclose
    · cases hclose
  · refine Sat.bind (parseMembers_firstBytes libc hnul hdrop hcut levels content.length) (fun y hy => ?_)
    exact Sat.ite (fun hclose => absurd hclose hy) (fun _ => trivial)

/-- Some bytes of an object's text, but not all: behind the opening brace stands a member that is cut off, or
    nothing. Of the empty object nothing can be left but the brace, as if a member were missing. -/
theorem objectText_cut {l : List (Str × Str)} (hnul : ∀ y ∈ l, (0 : UInt8) ∉ y.1 ∧ (0 : UInt8) ∉ y.2)
    (hcut : m + 1 < (objectText escaped l).length) :
    ∃ x l', (∀ y ∈ x :: l', (0 : UInt8) ∉ y.1 ∧ (0 : UInt8) ∉ y.2) ∧ m < (member escaped x ++ restText l').length ∧
      firstBytes (m + 1) (objectText escaped l) = openBrace :: firstBytes m (member escaped x ++ restText l') := by
  cases l with
  | nil =>
      have htwo : (objectText escaped []).length = 2 := rfl
      obtain rfl : m = 0 := by omega
      refine ⟨([], []), [], List.forall_mem_singleton.mpr ⟨List.not_mem_nil, List.not_mem_nil⟩, by decide, ?_⟩
      rw [objectText, firstBytes_succ, firstBytes_zero, firstBytes_zero]
  | cons x l =>
      rw [objectText, List.length_cons] at hcut
      exact ⟨x, l, hnul, Nat.lt_of_succ_lt_succ hcut, firstBytes_succ ..⟩

theorem parseValue_objectText {l : List (Str × Str)} (hnul : ∀ y ∈ l, (0 : UInt8) ∉ y.1 ∧ (0 : UInt8) ∉ y.2)
    (hcut : m < (objectText escaped l).length) (levels : Nat) :
    Sat (parseValue libc (firstBytes m (objectText escaped l)) levels 0) (fun _ => False) (fun _ => True) := by
  cases m with
  | zero =>
      have hend : (firstBytes 0 (objectText escaped l)).drop 0 = [0] := firstBytes_zero _
      rw [parseValue_of_head libc hend (by decide) (by decide) (by decide)]
      exact trivial
  | succ m =>
      obtain ⟨x, l', hnul', hcut', htext⟩ := objectText_cut hnul hcut
      rw [htext]
      generalize hcontent : openBrace :: firstBytes m (member escaped x ++ restText l') = content
      have hopen : content.drop 0 = openBrace :: firstBytes m (member escaped x ++ restText l') := hcontent.symm
      rw [parseValue_of_head libc hopen (by decide) (by decide) (by decide), if_neg (by decide), if_neg (by decide),
        if_neg (by decide), if_pos rfl]
      cases levels with
      | zero => exact trivial
      | succ levels =>
          exact asItem_sat (parseObject_firstBytes libc hnul' (drop_succ_of_drop hopen) hcut' levels)

theorem objectText_head (l : List (Str × Str)) : ∃ tail, objectText escaped l = openBrace :: tail := by
  cases l with
  | nil => exact ⟨_, rfl⟩
  | cons x l => exact ⟨_, rfl⟩

/-- **No part of an object's text is accepted** that ends before the closing brace. -/
theorem parseWithOpts_cut {l : List (Str × Str)} (hnul : ∀ y ∈ l, (0 : UInt8) ∉ y.1 ∧ (0 : UInt8) ∉ y.2)
    (hcut : m < (objectText escaped l).length) (requireNullTerminated : Bool) :
    ∃ p, parseWithOpts libc ((objectText escaped l).take m) requireNullTerminated = .error (.refused p) := by
  have hfree : (0 : UInt8) ∉ (objectText escaped l).take m :=
    fun hmem => not_mem_objectText hnul (List.mem_of_mem_take hmem)
  have hvalue := parseValue_objectText libc hnul hcut nestingLimit
  obtain ⟨tail, htail⟩ := objectText_head l
  have hskip : skipWhitespace (firstBytes m (objectText escaped l)) 0 = 0 := by
    rw [htail]
    exact skipWhitespace_firstBytes rfl (by decide)
  have hmark : skipUtf8Bom (firstBytes m (objectText escaped l)) = 0 := by
    rw [htail]
    refine if_neg (fun h => ?_)
    cases m with
    | zero => exact absurd h.1 (by rw [firstBytes_zero]; decide)
    | succ m => exact absurd (List.cons.inj h.2).1 (by decide)
  have hsafe := parseBuffer_sat libc (getLast?_content ((objectText escaped l).take m)) requireNullTerminated
  unfold parseWithOpts
  rw [cStr_of_not_mem hfree] at hsafe ⊢
  dsimp only
  cases hparse : parseBuffer libc ((objectText escaped l).take m ++ [0]) requireNullTerminated with
  | ok x =>
      -- the value would have been parsed
      have hbuffer : Sat (parseBuffer libc (firstBytes m (objectText escaped l)) requireNullTerminated)
          (fun _ => False) (fun _ => True) := by
        rw [parseBuffer, hmark, hskip]
        exact Sat.bind hvalue (fun _ hx => hx.elim)
      exact (hbuffer.of_ok hparse).elim
  | error e =>
      rw [hparse] at hsafe
      obtain ⟨p, -, rfl⟩ := hsafe
      exact ⟨_, rfl⟩

/-! ## The client's body -/

variable {params : StrMap}

/-- The body is cut off before the closing brace. -/
theorem clientBody_cut {body : Str} (hbody : clientBody params = some body) :
    ∃ l : List (Str × Str), (∀ y ∈ l, (0 : UInt8) ∉ y.1 ∧ (0 : UInt8) ∉ y.2) ∧
      ∃ m < (objectText escaped l).length, body = (objectText escaped l).take m := by
  obtain ⟨json, hjson, rfl⟩ := Option.map_eq_some_iff.mp hbody
  obtain ⟨hdatalen, hlt⟩ := datalen_eq hjson
  obtain ⟨rfl, -⟩ := printUnformatted_eq hjson
  have hsize : ((params.entries.length : Nat) : Int) ≠ -1 := by omega
  refine ⟨_, fun y hy => ?_, _, hlt, ?_⟩
  · obtain ⟨x, -, rfl⟩ := List.mem_map.mp hy
    exact ⟨not_mem_cStr x.1, not_mem_cStr x.2⟩
  · rw [hdatalen, postBody, if_neg hsize, Int.toNat_natCast]

/-- **The body that the client posts is refused** by every parser of `cJSON.c`, whatever the parameters are, and so
    is every part of an object's text that ends before its closing brace. -/
theorem posted_refused (libc : Libc ν) (requireNullTerminated : Bool) :
    (∀ (params : StrMap) (body : Str), clientBody params = some body →
      ∃ p, parseWithOpts libc body requireNullTerminated = .error (.refused p)) ∧
    (∀ (l : List (Str × Str)) (m : Nat), (∀ y ∈ l, (0 : UInt8) ∉ y.1 ∧ (0 : UInt8) ∉ y.2) →
      m < (objectText escaped l).length →
      ∃ p, parseWithOpts libc ((objectText escaped l).take m) requireNullTerminated = .error (.refused p)) := by
  refine ⟨fun params body hbody => ?_, fun l m hnul hcut => parseWithOpts_cut libc hnul hcut requireNullTerminated⟩
  obtain ⟨l, hnul, m, hcut, rfl⟩ := clientBody_cut hbody
  exact parseWithOpts_cut libc hnul hcut requireNullTerminated

/-- Two parameters: an opening brace and a quote. -/
theorem posted_refused_read : ∃ p, parseWithOpts Libc.naturals (lit "\x7b\"") true = .error (.refused p) :=
  have hbody : clientBody readParams = some (lit "\x7b\"") := by decide +kernel
  (posted_refused Libc.naturals true).1 readParams _ hbody

end CJson
end AstraeaGateway
