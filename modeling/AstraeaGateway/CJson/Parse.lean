import AstraeaGateway.CJson.Item
import AstraeaGateway.CJson.ParseString

/-!
# `CJson.Parse` — `cJSON_ParseWithOpts`, on every text

The recursive descent of `cJSON.c`, with the nesting that is left as an argument: `parse_array` and
`parse_object` count `depth` up to `CJSON_NESTING_LIMIT`. The loops over children are bounded by the size of
the content; that the bound is never met is part of `parseWithOpts_ends`, which says that the parser ends on every
text, reads nothing outside it, and reports a position in it.
-/

namespace AstraeaGateway
namespace CJson

open Checked Json Http

variable {ν : Type} (libc : Libc ν)

/-- `CJSON_NESTING_LIMIT` -/
def nestingLimit : Nat := 1000

/-! ## The source -/

/-- `parse_number`: the characters are copied into 64 bytes, with room for the NUL, and handed to `strtod`. -/
def parseNumber (content : Str) (offset : Nat) : Parsed (ν × Nat) :=
  match libc.strtod (((content.drop offset).take 63).takeWhile isNumberChar) with
  | none             => .error (.refused offset)
  | some (number, n) => .ok (number, offset + n)

variable {α : Type} (value : Nat → Parsed (α × Nat)) (content : Str)

/-- The loop over the elements of an array, from the character in front of the first one. -/
def parseElements : Nat → Nat → Parsed (List α × Nat)
  | 0, _             => .error .fuel
  | fuel + 1, offset => do
      let (item, offset) ← value (skipWhitespace content (offset + 1))
      let offset := skipWhitespace content offset
      if content[offset]? = some comma then
        let (children, offset) ← parseElements fuel offset
        return (item :: children, offset)
      else return ([item], offset)

/-- `parse_array` behind its check of the depth, with the parser of its elements. -/
def parseArray (offset : Nat) : Parsed (List α × Nat) := do
  if (← read content offset) ≠ openBracket then .error (.refused offset)
  else
    let offset := skipWhitespace content (offset + 1)
    if content[offset]? = some closeBracket then return ([], offset + 1)
    else if content.length ≤ offset then .error (.refused (offset - 1))
    else
      -- a step back to the character in front of the first element
      let (children, offset) ← parseElements value content content.length (offset - 1)
      if content[offset]? = some closeBracket then return (children, offset + 1)
      else .error (.refused offset)

/-- One name and value, from the character in front of the name. -/
def parseMember (offset : Nat) : Parsed ((Str × α) × Nat) := do
  let (string, offset) ← parseString content (skipWhitespace content (offset + 1))
  let offset := skipWhitespace content offset
  if content[offset]? = some colon then
    let (item, offset) ← value (skipWhitespace content (offset + 1))
    return ((string, item), skipWhitespace content offset)
  else .error (.refused offset)

/-- The loop over the children of an object. -/
def parseMembers : Nat → Nat → Parsed (List (Str × α) × Nat)
  | 0, _             => .error .fuel
  | fuel + 1, offset => do
      let (child, offset) ← parseMember value content offset
      if content[offset]? = some comma then
        let (children, offset) ← parseMembers fuel offset
        return (child :: children, offset)
      else return ([child], offset)

/-- `parse_object` behind its check of the depth. -/
def parseObject (offset : Nat) : Parsed (List (Str × α) × Nat) := do
  if content[offset]? ≠ some openBrace then .error (.refused offset)
  else
    let offset := skipWhitespace content (offset + 1)
    if content[offset]? = some closeBrace then return ([], offset + 1)
    else if content.length ≤ offset then .error (.refused (offset - 1))
    else
      let (children, offset) ← parseMembers value content content.length (offset - 1)
      if content[offset]? = some closeBrace then return (children, offset + 1)
      else .error (.refused offset)

/-- The result of a parser of one type of value, as an item. -/
def asItem {β : Type} (f : β → Item ν) (r : Parsed (β × Nat)) : Parsed (Item ν × Nat) :=
  r.map (fun x => (f x.1, x.2))

/-- `parse_value`, where `levels` arrays and objects may still be opened. -/
def parseValue (content : Str) : Nat → Nat → Parsed (Item ν × Nat)
  | levels, offset =>
      if startsWith content offset (lit "null") then .ok (.null, offset + 4)
      else if startsWith content offset (lit "false") then .ok (.false, offset + 5)
      else if startsWith content offset (lit "true") then .ok (.true, offset + 4)
      else if content[offset]? = some quote then asItem .string (parseString content offset)
      else if content[offset]?.any startsNumber then asItem .number (parseNumber libc content offset)
      else if content[offset]? = some openBracket then
        match levels with
        | 0          => .error (.refused offset)
        | levels + 1 => asItem .array (parseArray (parseValue content levels) content offset)
      else if content[offset]? = some openBrace then
        match levels with
        | 0          => .error (.refused offset)
        | levels + 1 => asItem .object (parseObject (parseValue content levels) content offset)
      else .error (.refused offset)

/-- A failed parse reports a position: the offset of the buffer, or the last byte if that is outside. -/
def errorPosition (content : Str) (offset : Nat) : Nat :=
  if offset < content.length then offset else content.length - 1

def located (content : Str) : Failure → Failure
  | .refused offset => .refused (errorPosition content offset)
  | e               => e

/-- `cJSON_ParseWithOpts` on the buffer: the item and `return_parse_end`. -/
def parseBuffer (content : Str) (requireNullTerminated : Bool) : Parsed (Item ν × Nat) := do
  let (item, offset) ← parseValue libc content nestingLimit (skipWhitespace content (skipUtf8Bom content))
  if requireNullTerminated then
    let offset := skipWhitespace content offset
    if content[offset]? = some 0 then return (item, offset) else .error (.refused offset)
  else return (item, offset)

/-- `cJSON_ParseWithOpts`; a refusal carries `local_error.position`. -/
def parseWithOpts (value : Str) (requireNullTerminated : Bool) : Parsed (Item ν × Nat) :=
  let content := cStr value ++ [0]
  (parseBuffer libc content requireNullTerminated).mapError (located content)

/-! ## Items that can be parsed -/

/-- An item nested at most `d` deep, without raw text, whose numbers meet `N` and whose strings hold no NUL. -/
inductive WellFormed (N : ν → Prop) : Nat → Item ν → Prop
  | null {d : Nat} : WellFormed N d .null
  | false {d : Nat} : WellFormed N d .false
  | true {d : Nat} : WellFormed N d .true
  | number {d : Nat} {x : ν} (h : N x) : WellFormed N d (.number x)
  | string {d : Nat} {s : Str} (h : (0 : UInt8) ∉ s) : WellFormed N d (.string s)
  | array {d : Nat} {children : List (Item ν)} (h : ∀ c ∈ children, WellFormed N d c) :
      WellFormed N (d + 1) (.array children)
  | object {d : Nat} {children : List (Str × Item ν)} (hkey : ∀ c ∈ children, (0 : UInt8) ∉ c.1)
      (h : ∀ c ∈ children, WellFormed N d c.2) : WellFormed N (d + 1) (.object children)

/-- The index of `WellFormed` bounds the nesting. -/
theorem WellFormed.depth_le {N : ν → Prop} {d : Nat} {item : Item ν} (h : WellFormed N d item) :
    item.depth ≤ d := by
  induction h with
  | array _ ih =>
      rw [Item.depth]
      exact Nat.succ_le_succ (depthOfItems_le.mpr ih)
  | object _ _ ih =>
      rw [Item.depth]
      exact Nat.succ_le_succ (depthOfMembers_le.mpr ih)
  | _ => exact Nat.zero_le _

/-! ## The parser inside its text -/

variable {value content} {P : α → Prop} {offset : Nat}

theorem Gives.mono {β : Type} {P' : β → Prop} {o o' : Nat} {r : Parsed (β × Nat)} {P : β → Prop}
    (h : Gives P content o r) (hP : ∀ b, P b → P' b) (ho : o' ≤ o) : Gives P' content o' r :=
  Sat.mono h (fun _ hx => ⟨hP _ hx.1, Nat.lt_of_le_of_lt ho hx.2.1, hx.2.2⟩) (fun _ he => he)

/-- A result of one type of value is one of `parse_value`. -/
theorem Gives.asItem {β : Type} {P : β → Prop} {P' : Item ν → Prop} {f : β → Item ν} {r : Parsed (β × Nat)}
    (h : Gives P content offset r) (hf : ∀ b, P b → P' (f b)) : Gives P' content offset (asItem f r) := by
  cases r with
  | ok x => exact ⟨hf _ h.1, h.2⟩
  | error e => exact h

theorem refused_sat {β : Type} {Q : β → Prop} {p : Nat} (h : p ≤ content.length) :
    Sat (.error (.refused p) : Parsed β) Q (RefusedIn content) := ⟨p, h, rfl⟩

/-- **The loops over children**, from the character in front of the first one: each round moves the offset on,
    so that the bound is never met. -/
theorem parseElements_gives (hnul : content.getLast? = some 0)
    (hvalue : ∀ o < content.length, Gives P content o (value o)) {fuel : Nat}
    (hfuel : content.length ≤ fuel + offset) (hlt : offset + 1 < content.length) :
    Gives (fun children => ∀ c ∈ children, P c) content offset (parseElements value content fuel offset) := by
  induction fuel generalizing offset with
  | zero => omega
  | succ fuel ih =>
      rw [parseElements]
      have hskip := skipWhitespace_lt hlt
      have hle := le_skipWhitespace hlt
      refine Sat.bind (hvalue _ hskip) (fun x hx => ?_)
      obtain ⟨item, o⟩ := x
      obtain ⟨hitem, hgt, ho⟩ := hx
      dsimp only at hitem hgt ho ⊢
      have hskip2 := skipWhitespace_lt ho
      have hle2 := le_skipWhitespace ho
      refine Sat.ite (fun hcomma => ?_) (fun _ => ?_)
      · have hnext := succ_lt_length hnul hcomma (by decide)
        refine Sat.bind (ih (by omega) hnext) (fun y hy => ?_)
        obtain ⟨children, o'⟩ := y
        obtain ⟨hchildren, hgt', ho'⟩ := hy
        exact ⟨List.forall_mem_cons.mpr ⟨hitem, hchildren⟩, by omega, ho'⟩
      · exact ⟨List.forall_mem_cons.mpr ⟨hitem, nofun⟩, by omega, hskip2⟩

theorem parseArray_gives (hnul : content.getLast? = some 0)
    (hvalue : ∀ o < content.length, Gives P content o (value o)) (hlt : offset < content.length) :
    Gives (fun children => ∀ c ∈ children, P c) content offset (parseArray value content offset) := by
  unfold parseArray
  refine Sat.bind (read_sat hlt) (fun b hb => ?_)
  refine Sat.ite (fun _ => refused_sat (Nat.le_of_lt hlt)) (fun hopen => ?_)
  obtain rfl := not_not.mp hopen
  have hnext := succ_lt_length hnul hb (by decide)
  have hskip := skipWhitespace_lt hnext
  have hle := le_skipWhitespace hnext
  refine Sat.ite (fun hclose => ?_) (fun _ => Sat.ite (fun _ => refused_sat (by omega)) (fun _ => ?_))
  · exact ⟨nofun, by omega, succ_lt_length hnul hclose (by decide)⟩
  · refine Sat.bind (parseElements_gives hnul hvalue (by omega) (by omega)) (fun x hx => ?_)
    obtain ⟨children, o⟩ := x
    obtain ⟨hchildren, hgt, ho⟩ := hx
    dsimp only at hchildren hgt ho ⊢
    refine Sat.ite (fun hclose => ?_) (fun _ => refused_sat (Nat.le_of_lt ho))
    exact ⟨hchildren, by omega, succ_lt_length hnul hclose (by decide)⟩

/-- One name and value. -/
theorem parseMember_gives (hnul : content.getLast? = some 0)
    (hvalue : ∀ o < content.length, Gives P content o (value o)) (hlt : offset + 1 < content.length) :
    Gives (fun c => (0 : UInt8) ∉ c.1 ∧ P c.2) content offset (parseMember value content offset) := by
  unfold parseMember
  have hskip := skipWhitespace_lt hlt
  have hle := le_skipWhitespace hlt
  refine Sat.bind (parseString_gives hnul hskip) (fun x hx => ?_)
  obtain ⟨string, o⟩ := x
  obtain ⟨hstring, hgt, ho⟩ := hx
  dsimp only at hstring hgt ho ⊢
  have hskip2 := skipWhitespace_lt ho
  have hle2 := le_skipWhitespace ho
  refine Sat.ite (fun hcolon => ?_) (fun _ => refused_sat (Nat.le_of_lt hskip2))
  have hnext := succ_lt_length hnul hcolon (by decide)
  have hle3 := le_skipWhitespace hnext
  refine Sat.bind (hvalue _ (skipWhitespace_lt hnext)) (fun y hy => ?_)
  obtain ⟨item, o'⟩ := y
  obtain ⟨hitem, hgt', ho'⟩ := hy
  dsimp only at hitem hgt' ho' ⊢
  have hle4 := le_skipWhitespace ho'
  exact ⟨⟨hstring, hitem⟩, by omega, skipWhitespace_lt ho'⟩

theorem parseMembers_gives (hnul : content.getLast? = some 0)
    (hvalue : ∀ o < content.length, Gives P content o (value o)) {fuel : Nat}
    (hfuel : content.length ≤ fuel + offset) (hlt : offset + 1 < content.length) :
    Gives (fun children => ∀ c ∈ children, (0 : UInt8) ∉ c.1 ∧ P c.2) content offset
      (parseMembers value content fuel offset) := by
  induction fuel generalizing offset with
  | zero => omega
  | succ fuel ih =>
      rw [parseMembers]
      refine Sat.bind (parseMember_gives hnul hvalue hlt) (fun x hx => ?_)
      obtain ⟨child, o⟩ := x
      obtain ⟨hchild, hgt, ho⟩ := hx
      dsimp only at hchild hgt ho ⊢
      refine Sat.ite (fun hcomma => ?_) (fun _ => ⟨List.forall_mem_cons.mpr ⟨hchild, nofun⟩, hgt, ho⟩)
      refine Sat.bind (ih (by omega) (succ_lt_length hnul hcomma (by decide))) (fun y hy => ?_)
      obtain ⟨children, o'⟩ := y
      obtain ⟨hchildren, hgt', ho'⟩ := hy
      exact ⟨List.forall_mem_cons.mpr ⟨hchild, hchildren⟩, Nat.lt_trans hgt hgt', ho'⟩

theorem parseObject_gives (hnul : content.getLast? = some 0)
    (hvalue : ∀ o < content.length, Gives P content o (value o)) (hlt : offset < content.length) :
    Gives (fun children => ∀ c ∈ children, (0 : UInt8) ∉ c.1 ∧ P c.2) content offset
      (parseObject value content offset) := by
  unfold parseObject
  refine Sat.ite (fun _ => refused_sat (Nat.le_of_lt hlt)) (fun hopen => ?_)
  have hnext := succ_lt_length hnul (not_not.mp hopen) (by decide)
  have hskip := skipWhitespace_lt hnext
  have hle := le_skipWhitespace hnext
  refine Sat.ite (fun hclose => ?_) (fun _ => Sat.ite (fun _ => refused_sat (by omega)) (fun _ => ?_))
  · exact ⟨nofun, by omega, succ_lt_length hnul hclose (by decide)⟩
  · refine Sat.bind (parseMembers_gives hnul hvalue (by omega) (by omega)) (fun x hx => ?_)
    obtain ⟨children, o⟩ := x
    obtain ⟨hchildren, hgt, ho⟩ := hx
    dsimp only at hchildren hgt ho ⊢
    refine Sat.ite (fun hclose => ?_) (fun _ => refused_sat (Nat.le_of_lt ho))
    exact ⟨hchildren, by omega, succ_lt_length hnul hclose (by decide)⟩

/-- A NUL is no part of a number, so what `strtod` reads ends before it. -/
theorem parseNumber_gives (hnul : content.getLast? = some 0) (hlt : offset < content.length) :
    Gives (fun _ => True) content offset (parseNumber libc content offset) := by
  unfold parseNumber
  have hcopied := (List.takeWhile_prefix isNumberChar (l := (content.drop offset).take 63)).trans
    (List.take_prefix ..)
  have hchars : ∀ b ∈ ((content.drop offset).take 63).takeWhile isNumberChar, isNumberChar b = true :=
    fun b hb => List.mem_takeWhile_imp hb
  generalize ((content.drop offset).take 63).takeWhile isNumberChar = copied at hcopied hchars
  cases hread : libc.strtod copied with
  | none => exact refused_sat (Nat.le_of_lt hlt)
  | some x =>
      obtain ⟨number, n⟩ := x
      obtain ⟨hpos, hn⟩ := libc.strtod_le hread
      refine ⟨trivial, Nat.lt_add_of_pos_right hpos, ?_⟩
      -- the last character read
      obtain ⟨rest, hrest⟩ := hcopied
      have hin : n - 1 < copied.length := by omega
      have hlast : content[offset + (n - 1)]? = some copied[n - 1] := by
        rw [← List.getElem?_drop, ← hrest, List.getElem?_append_left hin, List.getElem?_eq_getElem]
      have hne : copied[n - 1] ≠ 0 := by
        intro hzero
        have hchar := hchars _ (List.getElem_mem hin)
        rw [hzero] at hchar
        cases hchar
      have hnext := succ_lt_length hnul hlast hne
      show offset + n < content.length
      omega

/-- A token holds no NUL either. -/
theorem startsWith_lt {token : Str} (hnul : content.getLast? = some 0) (h : startsWith content offset token = true)
    (hne : token ≠ []) (htoken : (0 : UInt8) ∉ token) : offset + token.length < content.length := by
  unfold startsWith at h
  obtain ⟨hin, htake⟩ := Bool.and_eq_true_iff.mp h
  have hin := of_decide_eq_true hin
  have htake := of_decide_eq_true htake
  have hpos := List.length_pos_of_ne_nil hne
  have hlast : ((content.drop offset).take token.length)[token.length - 1]? = token[token.length - 1]? := by
    rw [htake]
  rw [List.getElem?_take_of_lt (by omega), List.getElem?_drop] at hlast
  have hlt : token.length - 1 < token.length := by omega
  rw [List.getElem?_eq_getElem hlt] at hlast
  have hnz : token[token.length - 1] ≠ 0 := fun hzero => htoken (hzero ▸ List.getElem_mem hlt)
  have hnext := succ_lt_length hnul hlast hnz
  omega

/-- **`parse_value`** ends on every text, inside the text, with an item nested as deep as it may be, or it
    refuses the text. -/
theorem parseValue_gives (hnul : content.getLast? = some 0) (levels : Nat) (hlt : offset < content.length) :
    Gives (WellFormed (fun _ => True) levels) content offset (parseValue libc content levels offset) := by
  induction levels using Nat.strong_induction_on generalizing offset with
  | _ levels ih =>
      rw [parseValue.eq_def]
      refine Sat.ite (fun htoken => ?_) (fun _ => ?_)
      · exact ⟨WellFormed.null, by omega, startsWith_lt hnul htoken (by decide) (by decide)⟩
      refine Sat.ite (fun htoken => ?_) (fun _ => ?_)
      · exact ⟨WellFormed.false, by omega, startsWith_lt hnul htoken (by decide) (by decide)⟩
      refine Sat.ite (fun htoken => ?_) (fun _ => ?_)
      · exact ⟨WellFormed.true, by omega, startsWith_lt hnul htoken (by decide) (by decide)⟩
      refine Sat.ite (fun _ => ?_) (fun _ => ?_)
      · exact (parseString_gives hnul hlt).asItem (fun s hs => WellFormed.string hs)
      refine Sat.ite (fun _ => ?_) (fun _ => ?_)
      · exact (parseNumber_gives libc hnul hlt).asItem (fun x hx => WellFormed.number hx)
      refine Sat.ite (fun _ => ?_) (fun _ => ?_)
      · cases levels with
        | zero => exact refused_sat (Nat.le_of_lt hlt)
        | succ levels =>
            have hvalue := fun o (ho : o < content.length) => ih levels (Nat.lt_succ_self levels) ho
            exact (parseArray_gives hnul hvalue hlt).asItem (fun children h => WellFormed.array h)
      refine Sat.ite (fun _ => ?_) (fun _ => refused_sat (Nat.le_of_lt hlt))
      cases levels with
      | zero => exact refused_sat (Nat.le_of_lt hlt)
      | succ levels =>
          have hvalue := fun o (ho : o < content.length) => ih levels (Nat.lt_succ_self levels) ho
          exact (parseObject_gives hnul hvalue hlt).asItem
            (fun children h => WellFormed.object (fun c hc => (h c hc).1) (fun c hc => (h c hc).2))

/-! ## Every text -/

theorem getLast?_content (value : Str) : (cStr value ++ [0]).getLast? = some 0 := List.getLast?_concat ..

/-- What `cJSON_ParseWithOpts` ends with: an item, and the end of what was parsed, in the text or at its NUL; or
    a position in the text or at its NUL. -/
def Ends (value : Str) : Parsed (Item ν × Nat) → Prop
  | .ok (item, parseEnd)  => WellFormed (fun _ => True) nestingLimit item ∧ parseEnd ≤ (cStr value).length
  | .error (.refused pos) => pos ≤ (cStr value).length
  | .error _              => False

theorem skipUtf8Bom_lt (hpos : 0 < content.length) : skipUtf8Bom content < content.length := by
  unfold skipUtf8Bom
  split
  · omega
  · exact hpos

/-- The parser on a buffer that ends with a NUL. -/
theorem parseBuffer_sat (hnul : content.getLast? = some 0) (requireNullTerminated : Bool) :
    Sat (parseBuffer libc content requireNullTerminated)
      (fun x => WellFormed (fun _ => True) nestingLimit x.1 ∧ x.2 < content.length) (RefusedIn content) := by
  have hpos : 0 < content.length := by
    apply List.length_pos_of_ne_nil
    rintro rfl
    cases hnul
  unfold parseBuffer
  refine Sat.bind (parseValue_gives libc hnul nestingLimit (skipWhitespace_lt (skipUtf8Bom_lt hpos)))
    (fun x hx => ?_)
  obtain ⟨item, offset⟩ := x
  obtain ⟨hitem, -, ho⟩ := hx
  dsimp only at hitem ho ⊢
  have hskip := skipWhitespace_lt ho
  refine Sat.ite (fun _ => ?_) (fun _ => ⟨hitem, ho⟩)
  exact Sat.ite (fun _ => ⟨hitem, hskip⟩) (fun _ => refused_sat (Nat.le_of_lt hskip))

/-- **The parser is safe on every text**: it ends, accesses nothing outside the text and its allocations, and
    what it accepts or reports is as it should be. -/
theorem parseWithOpts_ends (value : Str) (requireNullTerminated : Bool) :
    Ends value (parseWithOpts libc value requireNullTerminated) := by
  have hsat := parseBuffer_sat libc (getLast?_content value) requireNullTerminated
  have hlen : (cStr value ++ [0]).length = (cStr value).length + 1 := List.length_append
  unfold parseWithOpts
  dsimp only
  cases hparse : parseBuffer libc (cStr value ++ [0]) requireNullTerminated with
  | ok x =>
      obtain ⟨hitem, hend⟩ := hsat.of_ok hparse
      exact ⟨hitem, by omega⟩
  | error e =>
      obtain ⟨p, hp, rfl⟩ := hsat.of_error hparse
      show errorPosition (cStr value ++ [0]) p ≤ (cStr value).length
      unfold errorPosition
      split
      · omega
      · omega

end CJson
end AstraeaGateway
