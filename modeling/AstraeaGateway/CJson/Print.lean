import AstraeaGateway.CJson.Item
import AstraeaGateway.Checked
import AstraeaGateway.Http.CJson

/-!
# `CJson.Print` — every item is printed, if there is room

`print_value` with its writes checked against the buffer, in both formats, for a buffer that grows and for one
that must not. Each function writes behind a call of `ensure`, which asks for a little more than is printed.
`Prints` says what that comes to: the text is printed exactly if two more bytes than its length are left, and
nothing is written outside the buffer in either case.
-/

namespace AstraeaGateway
namespace CJson

open Checked Json

def newline : UInt8 := 10
def tab : UInt8 := 9
def space : UInt8 := 32

/-! ## The source -/

/-- How a print fails: it gives up, or it would write outside the memory it has. -/
inductive PrintFailure
  | failed
  | overrun
deriving DecidableEq, Repr

abbrev Printed := Except PrintFailure PrintBuffer

/-- `ensure`; with `noalloc` the buffer must not grow. -/
def ensureIn (noalloc : Bool) (p : PrintBuffer) (needed : Nat) : Option PrintBuffer :=
  if noalloc = true ∧ p.length < needed + (p.text.length + 1) then none else ensure p needed

/-- A call of `ensure`, and what is written behind it: `bytes` is printed, and `size` bytes are touched. -/
def put (noalloc : Bool) (needed size : Nat) (bytes : Str) (p : PrintBuffer) : Printed :=
  match ensureIn noalloc p needed with
  | none   => .error .failed
  | some p => if p.text.length + size ≤ p.length then .ok (p.write bytes) else .error .overrun

/-- The same under a condition. -/
def putIf (c : Bool) (noalloc : Bool) (needed size : Nat) (bytes : Str) (p : PrintBuffer) : Printed :=
  if c then put noalloc needed size bytes p else .ok p

variable {ν : Type} (libc : Libc ν) (noalloc format : Bool)

/-- What `print_number` leaves in its buffer: 15 digits if they give the number back, else 17. -/
def numberText (d : ν) : Str :=
  if libc.isFinite d then
    if (libc.scan (libc.format15 d)).any (fun test => libc.equal test d) then libc.format15 d
    else libc.format17 d
  else lit "null"

/-- `print_number`; `sprintf` writes into 26 bytes. -/
def printNumber (d : ν) (p : PrintBuffer) : Printed :=
  let number := numberText libc d
  if number.length > 25 then .error .overrun
  else put noalloc (number.length + 1) (number.length + 1) number p

/-- `print_string_ptr`. The copying loop goes as far as the escaped string and the NUL of the last `sprintf`. -/
def printString (input : Str) (p : PrintBuffer) : Printed :=
  put noalloc (outputLength input + 3) (max ((escaped input).length + 2) (outputLength input + 3))
    (stringText input) p

/-- Written only in a formatted print. -/
def inFormat (b : UInt8) : Str := if format then [b] else []

/-- `length` -/
def lengthInFormat : Nat := if format then 2 else 1

mutual

/-- `print_value`, with `print_array` and `print_object`; `depth` is that of the buffer. -/
def printValue : Nat → Item ν → PrintBuffer → Printed
  | _, .null, p                => put noalloc 5 5 (lit "null") p
  | _, .false, p               => put noalloc 6 6 (lit "false") p
  | _, .true, p                => put noalloc 5 5 (lit "true") p
  | _, .number d, p            => printNumber libc noalloc d p
  | _, .raw s, p               => put noalloc (s.length + 1) (s.length + 1) s p
  | _, .string s, p            => printString noalloc s p
  | depth, .array children, p  => do
      let p ← put noalloc 1 1 [openBracket] p
      let p ← printElements (depth + 1) children p
      put noalloc 2 2 [closeBracket] p
  | depth, .object children, p => do
      let p ← put noalloc (lengthInFormat format + 1) (lengthInFormat format) (openBrace :: inFormat format newline) p
      let p ← printMembers (depth + 1) children p
      let indent := if format then List.replicate depth tab else []
      put noalloc (if format then depth + 1 + 1 else 2) (indent.length + 2) (indent ++ [closeBrace]) p

/-- The loop of `print_array`. -/
def printElements : Nat → List (Item ν) → PrintBuffer → Printed
  | _, [], p                    => .ok p
  | depth, item :: children, p  => do
      let p ← printValue depth item p
      let p ← putIf (!children.isEmpty) noalloc (lengthInFormat format + 1) (lengthInFormat format + 1)
        (comma :: inFormat format space) p
      printElements depth children p

/-- The loop of `print_object`. -/
def printMembers : Nat → List (Str × Item ν) → PrintBuffer → Printed
  | _, [], p                             => .ok p
  | depth, (string, item) :: children, p => do
      let p ← putIf format noalloc depth depth (List.replicate depth tab) p
      let p ← printString noalloc string p
      let p ← put noalloc (lengthInFormat format) (lengthInFormat format) (colon :: inFormat format tab) p
      let p ← printValue depth item p
      let separator := (if children.isEmpty then [] else [comma]) ++ inFormat format newline
      let p ← put noalloc (separator.length + 1) (separator.length + 1) separator p
      printMembers depth children p

end

/-- `print`, which starts from 256 bytes; it is `cJSON_Print` and `cJSON_PrintUnformatted`. -/
def print (item : Item ν) : Except PrintFailure Str :=
  (printValue libc false format 0 item ⟨[], 256⟩).map PrintBuffer.text

/-- `cJSON_PrintBuffered` -/
def printBuffered (item : Item ν) (prebuffer : Int32) : Except PrintFailure Str :=
  if prebuffer.toInt < 0 then .error .failed
  else (printValue libc false format 0 item ⟨[], prebuffer.toInt.toNat⟩).map PrintBuffer.text

/-- `cJSON_PrintPreallocated`: what stands in the buffer. -/
def printPreallocated (item : Item ν) (len : Int32) : Except PrintFailure Str :=
  if len.toInt < 0 then .error .failed
  else (printValue libc true format 0 item ⟨[], len.toInt.toNat⟩).map PrintBuffer.text

/-! ## What is printed -/

mutual

/-- The text of an item. -/
def valueText : Nat → Item ν → Str
  | _, .null                => lit "null"
  | _, .false               => lit "false"
  | _, .true                => lit "true"
  | _, .number d            => numberText libc d
  | _, .raw s               => s
  | _, .string s            => quoted (escaped s)
  | depth, .array children  => openBracket :: (elementsText (depth + 1) children ++ [closeBracket])
  | depth, .object children =>
      openBrace :: (inFormat format newline ++ (membersText (depth + 1) children ++
        ((if format then List.replicate depth tab else []) ++ [closeBrace])))

def elementsText : Nat → List (Item ν) → Str
  | _, []                   => []
  | depth, item :: children =>
      valueText depth item ++ ((if !children.isEmpty then comma :: inFormat format space else []) ++
        elementsText depth children)

def membersText : Nat → List (Str × Item ν) → Str
  | _, []                            => []
  | depth, (string, item) :: children =>
      (if format then List.replicate depth tab else []) ++ (quoted (escaped string) ++
        (colon :: inFormat format tab ++ (valueText depth item ++
          ((if children.isEmpty then [] else [comma]) ++ inFormat format newline ++ membersText depth children))))

end

/-! ## The buffer -/

/-- The buffers that occur: no larger than an `int`, and the offset inside. -/
structure Usable (p : PrintBuffer) : Prop where
  bound  : p.length ≤ intMax
  offset : p.text.length < p.length ∨ p.length = 0

/-- How large the buffer may become. -/
def limit (noalloc : Bool) (p : PrintBuffer) : Nat := if noalloc then p.length else intMax

variable {noalloc format} {p : PrintBuffer} {needed size : Nat} {bytes text text' : Str}

/-- **`ensure`** finds room for one byte more than it was asked for, and only then. -/
theorem ensureIn_returns (noalloc : Bool) (needed : Nat) (husable : Usable p) :
    (p.text.length + needed + 1 ≤ limit noalloc p → ∃ length ≤ intMax, p.text.length + needed + 1 ≤ length ∧
      limit noalloc ⟨p.text, length⟩ = limit noalloc p ∧ ensureIn noalloc p needed = some ⟨p.text, length⟩) ∧
    (limit noalloc p < p.text.length + needed + 1 → ensureIn noalloc p needed = none) := by
  obtain ⟨hbound, hoffset⟩ := husable
  have hvalid : ¬ (p.length > 0 ∧ p.text.length ≥ p.length) := by omega
  unfold ensureIn ensure
  rw [if_neg hvalid]
  dsimp only
  by_cases hfits : needed + (p.text.length + 1) ≤ p.length
  · have hgrow : ¬ (noalloc = true ∧ p.length < needed + (p.text.length + 1)) := by omega
    have hneeded : ¬ needed > intMax := by omega
    rw [if_neg hgrow, if_neg hneeded, if_pos hfits]
    have hle : p.text.length + needed + 1 ≤ limit noalloc p := by
      unfold limit
      split
      · omega
      · omega
    exact ⟨fun _ => ⟨p.length, hbound, by omega, rfl, rfl⟩, fun hlt => absurd hle (Nat.not_le.mpr hlt)⟩
  · cases noalloc with
    | true =>
        rw [if_pos ⟨rfl, Nat.not_le.mp hfits⟩]
        refine ⟨fun hle => ?_, fun _ => rfl⟩
        change p.text.length + needed + 1 ≤ p.length at hle
        omega
    | false =>
        rw [if_neg (fun h => Bool.false_ne_true h.1)]
        show (p.text.length + needed + 1 ≤ intMax → _) ∧ (intMax < p.text.length + needed + 1 → _)
        by_cases hmax : p.text.length + needed + 1 ≤ intMax
        · refine ⟨fun _ => ?_, fun hlt => absurd hmax (Nat.not_le.mpr hlt)⟩
          rw [if_neg (show ¬ needed > intMax by omega), if_neg hfits]
          by_cases hhalf : needed + (p.text.length + 1) > intMax / 2
          · rw [if_pos hhalf, if_pos (by omega)]
            exact ⟨intMax, Nat.le_refl _, hmax, rfl, rfl⟩
          · rw [if_neg hhalf]
            exact ⟨(needed + (p.text.length + 1)) * 2, by omega, by omega, rfl, rfl⟩
        · refine ⟨fun hle => absurd hle hmax, fun _ => ?_⟩
          by_cases hneeded : needed > intMax
          · rw [if_pos hneeded]
          · rw [if_neg hneeded, if_neg hfits, if_pos (by omega), if_neg (by omega)]

/-- What a print may end with: the text behind what stood in the buffer, with `spare` bytes left below the limit;
    or a failure where there are fewer. -/
def Prints (noalloc : Bool) (spare : Nat) (text : Str) (r : PrintBuffer → Printed) : Prop :=
  ∀ p, Usable p → Sat (r p)
    (fun p' => p'.text = p.text ++ text ∧ Usable p' ∧ limit noalloc p' = limit noalloc p ∧
      p.text.length + text.length + spare ≤ limit noalloc p)
    (fun e => e = .failed ∧ limit noalloc p < p.text.length + text.length + spare)

/-- **A write behind `ensure`** stays in the buffer. -/
theorem put_prints {spare : Nat} (hsize : size ≤ needed + 1) (hbytes : bytes.length ≤ needed)
    (hneeded : needed + 1 = bytes.length + spare) : Prints noalloc spare bytes (put noalloc needed size bytes) := by
  intro p husable
  obtain ⟨hroom, hnone⟩ := ensureIn_returns noalloc needed husable
  unfold put
  by_cases hle : p.text.length + needed + 1 ≤ limit noalloc p
  · obtain ⟨length, hbound, hlength, hlimit, hensure⟩ := hroom hle
    rw [hensure]
    dsimp only
    rw [if_pos (by omega)]
    refine ⟨rfl, ⟨hbound, Or.inl ?_⟩, hlimit, by omega⟩
    show (p.text ++ bytes).length < length
    rw [List.length_append]
    omega
  · rw [hnone (Nat.not_le.mp hle)]
    exact ⟨rfl, by omega⟩

/-! ## Putting writes together -/

variable {r k : PrintBuffer → Printed} {spare : Nat}

theorem Prints.bind (h : Prints noalloc spare text r) (hk : Prints noalloc 2 text' k) (hspare : spare ≤ 2) :
    Prints noalloc 2 (text ++ text') (fun p => r p >>= k) := by
  intro p husable
  have hr := h p husable
  show Sat (r p >>= k) _ _
  cases hrun : r p with
  | error e =>
      rw [hrun] at hr
      obtain ⟨rfl, hlt⟩ := hr
      refine ⟨rfl, ?_⟩
      rw [List.length_append]
      omega
  | ok p' =>
      rw [hrun] at hr
      obtain ⟨htext, husable', hlimit, -⟩ := hr
      refine (hk p' husable').mono (fun p'' h'' => ?_) (fun e he => ?_)
      · obtain ⟨htext', husable'', hlimit', hle⟩ := h''
        rw [htext, List.length_append, hlimit] at hle
        refine ⟨by rw [htext', htext, List.append_assoc], husable'', hlimit'.trans hlimit, ?_⟩
        rw [List.length_append]
        omega
      · obtain ⟨rfl, hlt⟩ := he
        rw [htext, List.length_append, hlimit] at hlt
        refine ⟨rfl, ?_⟩
        rw [List.length_append]
        omega

theorem Prints.bind_putIf {c : Bool} (h : c = true → Prints noalloc spare bytes (put noalloc needed size bytes))
    (hk : Prints noalloc 2 text k) (hspare : spare ≤ 2) :
    Prints noalloc 2 ((if c then bytes else []) ++ text) (fun p => putIf c noalloc needed size bytes p >>= k) := by
  cases c with
  | true => exact (h rfl).bind hk hspare
  | false => exact hk

/-! ## Items -/

variable {libc : Libc ν}

theorem length_numberText (d : ν) : (numberText libc d).length ≤ 25 := by
  unfold numberText
  split
  · rename_i hfinite
    split
    · exact libc.length15 hfinite
    · exact libc.length17 hfinite
  · decide

theorem length_inFormat (format : Bool) (b : UInt8) : (inFormat format b).length + 1 = lengthInFormat format := by
  cases format with
  | true => rfl
  | false => rfl

/-- **A number** fits the buffer that it is formatted in. -/
theorem printNumber_prints (d : ν) : Prints noalloc 2 (numberText libc d) (printNumber libc noalloc d) := by
  intro p husable
  unfold printNumber
  dsimp only
  rw [if_neg (Nat.not_lt.mpr (length_numberText d))]
  exact put_prints (Nat.le_succ _) (Nat.le_succ _) rfl p husable

theorem printString_prints (s : Str) : Prints noalloc 2 (quoted (escaped s)) (printString noalloc s) := by
  have hlen : (quoted (escaped s)).length = outputLength s + 2 := by
    rw [quoted, List.length_append, List.length_cons, length_escaped]
    rfl
  unfold printString
  rw [stringText_eq]
  refine put_prints ?_ ?_ ?_
  · rw [length_escaped]
    omega
  · omega
  · omega

/-- **The loop of `print_array`**, and what is printed behind it. -/
theorem printElements_prints {children : List (Item ν)} (h : ∀ item ∈ children, ∀ depth,
    Prints noalloc 2 (valueText libc format depth item) (printValue libc noalloc format depth item)) (depth : Nat)
    (hk : Prints noalloc 2 text k) : Prints noalloc 2 (elementsText libc format depth children ++ text)
      (fun p => printElements libc noalloc format depth children p >>= k) := by
  induction children with
  | nil =>
      simp only [printElements, elementsText]
      exact hk
  | cons item children ih =>
      obtain ⟨hitem, h⟩ := List.forall_mem_cons.mp h
      simp only [printElements, elementsText, bind_assoc, List.append_assoc]
      refine (hitem depth).bind ?_ (Nat.le_refl 2)
      have hlen := length_inFormat format space
      have hcomma : Prints noalloc 2 (comma :: inFormat format space)
          (put noalloc (lengthInFormat format + 1) (lengthInFormat format + 1) (comma :: inFormat format space)) :=
        put_prints (Nat.le_succ _) (by rw [List.length_cons]; omega) (by rw [List.length_cons]; omega)
      exact Prints.bind_putIf (fun _ => hcomma) (ih h) (Nat.le_refl 2)

/-- **The loop of `print_object`**, and what is printed behind it. -/
theorem printMembers_prints {children : List (Str × Item ν)} (h : ∀ child ∈ children, ∀ depth,
    Prints noalloc 2 (valueText libc format depth child.2) (printValue libc noalloc format depth child.2)) (depth : Nat)
    (hk : Prints noalloc 2 text k) : Prints noalloc 2 (membersText libc format depth children ++ text)
      (fun p => printMembers libc noalloc format depth children p >>= k) := by
  induction children with
  | nil =>
      simp only [printMembers, membersText]
      exact hk
  | cons child children ih =>
      obtain ⟨string, item⟩ := child
      obtain ⟨hitem, h⟩ := List.forall_mem_cons.mp h
      have hlen := length_inFormat format tab
      generalize hsep : (if children.isEmpty then [] else [comma]) ++ inFormat format newline = separator
      have hseparator : Prints noalloc 2 separator (put noalloc (separator.length + 1) (separator.length + 1) separator) :=
        put_prints (Nat.le_succ _) (Nat.le_succ _) rfl
      have hcolon : Prints noalloc 1 (colon :: inFormat format tab)
          (put noalloc (lengthInFormat format) (lengthInFormat format) (colon :: inFormat format tab)) :=
        put_prints (Nat.le_succ _) (by rw [List.length_cons]; omega) (by rw [List.length_cons]; omega)
      have hbehind := (hitem depth).bind (hseparator.bind (ih h) (Nat.le_refl 2)) (Nat.le_refl 2)
      have hname := (printString_prints string).bind (hcolon.bind hbehind (by decide)) (Nat.le_refl 2)
      have hindent : Prints noalloc 1 (List.replicate depth tab) (put noalloc depth depth (List.replicate depth tab)) :=
        put_prints (Nat.le_succ _) (by rw [List.length_replicate]) (by rw [List.length_replicate])
      simp only [printMembers, membersText, bind_assoc, hsep, List.append_assoc]
      exact Prints.bind_putIf (fun _ => hindent) hname (by decide)

/-- **Every item is printed**, at every depth, in either format. -/
theorem printValue_prints (item : Item ν) (depth : Nat) :
    Prints noalloc 2 (valueText libc format depth item) (printValue libc noalloc format depth item) := by
  induction item using Item.induct generalizing depth with
  | null => exact put_prints (Nat.le_succ 5) (Nat.le_succ 4) rfl
  | false => exact put_prints (Nat.le_succ 6) (Nat.le_succ 5) rfl
  | true => exact put_prints (Nat.le_succ 5) (Nat.le_succ 4) rfl
  | number d => exact printNumber_prints d
  | string s => exact printString_prints s
  | raw s => exact put_prints (Nat.le_succ _) (Nat.le_succ _) rfl
  | array children ih =>
      have hopen : Prints noalloc 1 [openBracket] (put noalloc 1 1 [openBracket]) :=
        put_prints (by decide) (by decide) rfl
      have hclose : Prints noalloc 2 [closeBracket] (put noalloc 2 2 [closeBracket]) :=
        put_prints (by decide) (by decide) rfl
      simp only [valueText, printValue]
      exact hopen.bind (printElements_prints ih (depth + 1) hclose) (by decide)
  | object children ih =>
      have hlen := length_inFormat format newline
      have hopen : Prints noalloc 2 (openBrace :: inFormat format newline)
          (put noalloc (lengthInFormat format + 1) (lengthInFormat format) (openBrace :: inFormat format newline)) :=
        put_prints (by omega) (by rw [List.length_cons]; omega) (by rw [List.length_cons]; omega)
      generalize hindent : (if format then List.replicate depth tab else []) = indent
      have hneeded : (if format then depth + 1 + 1 else 2) = indent.length + 2 := by
        subst hindent
        cases format with
        | false => rfl
        | true =>
            show depth + 1 + 1 = (List.replicate depth tab).length + 2
            rw [List.length_replicate]
      have hclose : Prints noalloc 2 (indent ++ [closeBrace])
          (put noalloc (indent.length + 2) (indent.length + 2) (indent ++ [closeBrace])) :=
        put_prints (Nat.le_succ _) (by rw [List.length_append, List.length_singleton]; omega)
          (by rw [List.length_append, List.length_singleton])
      have hprint := hopen.bind (printMembers_prints ih (depth + 1) hclose) (Nat.le_refl 2)
      simp only [valueText, printValue, hindent, hneeded]
      exact hprint

/-! ## Every print -/

/-- What is left of a print that starts with an empty buffer. -/
theorem Prints.run {length : Nat} (h : Prints noalloc 2 text r) (hlength : length ≤ intMax) :
    (r ⟨[], length⟩).map PrintBuffer.text
      = if text.length + 2 ≤ limit noalloc ⟨[], length⟩ then .ok text else .error .failed := by
  have husable : Usable ⟨[], length⟩ := ⟨hlength, (Nat.eq_zero_or_pos length).symm⟩
  have hr := h ⟨[], length⟩ husable
  cases hrun : r ⟨[], length⟩ with
  | ok p =>
      rw [hrun] at hr
      obtain ⟨htext, -, -, hle⟩ := hr
      rw [List.length_nil, Nat.zero_add] at hle
      rw [if_pos hle]
      exact congrArg Except.ok htext
  | error e =>
      rw [hrun] at hr
      obtain ⟨rfl, hlt⟩ := hr
      rw [List.length_nil, Nat.zero_add] at hlt
      rw [if_neg (Nat.not_le.mpr hlt)]
      rfl

theorem toNat_le_intMax (n : Int32) : n.toInt.toNat ≤ intMax := by
  have hlt := n.toInt_lt
  unfold intMax
  omega

theorem print_eq (item : Item ν) : print libc format item = if (valueText libc format 0 item).length + 2 ≤ intMax
    then .ok (valueText libc format 0 item) else .error .failed :=
  (printValue_prints item 0).run (by decide)

theorem printBuffered_eq (item : Item ν) (prebuffer : Int32) : printBuffered libc format item prebuffer =
    if 0 ≤ prebuffer.toInt then print libc format item else .error .failed := by
  unfold printBuffered
  by_cases hneg : prebuffer.toInt < 0
  · rw [if_pos hneg, if_neg (Int.not_le.mpr hneg)]
  · rw [if_neg hneg, if_pos (Int.not_lt.mp hneg), print_eq]
    exact (printValue_prints item 0).run (toNat_le_intMax prebuffer)

theorem printPreallocated_eq (item : Item ν) (len : Int32) : printPreallocated libc format item len =
    if (valueText libc format 0 item).length + 2 ≤ len.toInt
    then .ok (valueText libc format 0 item) else .error .failed := by
  have hprint : Prints true 2 (valueText libc format 0 item) (printValue libc true format 0 item) :=
    printValue_prints item 0
  unfold printPreallocated
  by_cases hneg : len.toInt < 0
  · rw [if_pos hneg, if_neg (by omega)]
  · rw [if_neg hneg, hprint.run (toNat_le_intMax len)]
    have hiff : (valueText libc format 0 item).length + 2 ≤ limit true ⟨[], len.toInt.toNat⟩
        ↔ ((valueText libc format 0 item).length : Int) + 2 ≤ len.toInt := by
      show _ ≤ len.toInt.toNat ↔ _
      omega
    exact if_congr hiff rfl rfl

/-- **Every print is exact**: `cJSON_Print`, `cJSON_PrintUnformatted` and `cJSON_PrintBuffered` print the text of the
    item if it and two more bytes are no larger than `INT_MAX`, and fail otherwise; `cJSON_PrintPreallocated` prints
    it if the buffer has two bytes more than the text. None of them writes outside its memory. -/
theorem print_exact (libc : Libc ν) (format : Bool) (item : Item ν) :
    (print libc format item = if (valueText libc format 0 item).length + 2 ≤ intMax
      then .ok (valueText libc format 0 item) else .error .failed) ∧
    (∀ prebuffer, printBuffered libc format item prebuffer =
      if 0 ≤ prebuffer.toInt then print libc format item else .error .failed) ∧
    (∀ len, printPreallocated libc format item len = if (valueText libc format 0 item).length + 2 ≤ len.toInt
      then .ok (valueText libc format 0 item) else .error .failed) :=
  ⟨print_eq item, printBuffered_eq item, printPreallocated_eq item⟩

/-! ## What the functions of the interface return -/

/-- `text` is what one of the printing functions returns for the item. -/
def IsPrinted (libc : Libc ν) (format : Bool) (item : Item ν) (text : Str) : Prop :=
  print libc format item = .ok text ∨ (∃ prebuffer, printBuffered libc format item prebuffer = .ok text) ∨
    ∃ len, printPreallocated libc format item len = .ok text

theorem eq_of_ite_ok {c : Prop} [Decidable c] {t : Str}
    (h : (if c then .ok t else .error .failed : Except PrintFailure Str) = .ok text) : text = t := by
  split at h
  · exact (Except.ok.inj h).symm
  · cases h

theorem IsPrinted.eq {item : Item ν} (h : IsPrinted libc format item text) : text = valueText libc format 0 item := by
  rcases h with h | ⟨prebuffer, h⟩ | ⟨len, h⟩
  · rw [print_eq] at h
    exact eq_of_ite_ok h
  · rw [printBuffered_eq, print_eq] at h
    split at h
    · exact eq_of_ite_ok h
    · cases h
  · rw [printPreallocated_eq] at h
    exact eq_of_ite_ok h

end CJson
end AstraeaGateway
