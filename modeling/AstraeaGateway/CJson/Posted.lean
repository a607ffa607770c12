import AstraeaGateway.CJson.RoundTrip

/-!
# `CJson.Posted` — the body that the gateway posts

`Http.CJson` prints objects of strings only, and `CJson.Print` every item: on these objects they agree
(`print_strings`). So the body of `restCallPostJsonAsync` is what `cJSON_PrintUnformatted` makes of the parameters,
and whoever reads it with `cJSON_Parse` gets the parameters back, up to their first NUL.
-/

namespace AstraeaGateway
namespace CJson

open Checked Json Http

variable {ν : Type} {libc : Libc ν}

/-- The object that `cJSON_AddStringToObject` builds. -/
def stringsItem (strings : List (Str × Str)) : Item ν := .object (strings.map (fun x => (x.1, .string x.2)))

/-! ## One model of printing in the other -/

/-- On every usable buffer the checked print does what the other one does. -/
def Agrees (r : PrintBuffer → Printed) (r' : PrintBuffer → Option PrintBuffer) : Prop :=
  ∀ p, Usable p → (r p).toOption = r' p

variable {r k : PrintBuffer → Printed} {r' k' : PrintBuffer → Option PrintBuffer} {text bytes : Str}
  {needed size spare : Nat}

theorem Agrees.bind (h : Agrees r r') (hprints : Prints false spare text r) (hk : Agrees k k') :
    Agrees (fun p => r p >>= k) (fun p => (r' p).bind k') := by
  intro p husable
  have hp := h p husable
  have hafter := hprints p husable
  show (r p >>= k).toOption = (r' p).bind k'
  rw [← hp]
  cases hrun : r p with
  | error e => rfl
  | ok p' =>
      rw [hrun] at hafter
      exact hk p' hafter.2.1

theorem put_agrees (hsize : size ≤ needed + 1) :
    Agrees (put false needed size bytes) (fun p => (ensure p needed).map (PrintBuffer.write bytes)) := by
  intro p husable
  have hsame : ensureIn false p needed = ensure p needed := if_neg (fun h => Bool.false_ne_true h.1)
  obtain ⟨hroom, hnone⟩ := ensureIn_returns false needed husable
  unfold put
  dsimp only
  rw [← hsame]
  by_cases hle : p.text.length + needed + 1 ≤ limit false p
  · obtain ⟨length, -, hlength, -, hensure⟩ := hroom hle
    rw [hensure]
    dsimp only
    rw [if_pos (by omega)]
    rfl
  · rw [hnone (Nat.not_le.mp hle)]
    rfl

theorem printString_agrees (s : Str) : Agrees (printString false s) (printStringPtr s) := by
  unfold printString
  refine put_agrees ?_
  rw [length_escaped]
  omega

/-- The comma behind an item, if there is a next one. -/
theorem separator_agrees (next : Bool) :
    Agrees (put false ((if next then [comma] else []).length + 1) ((if next then [comma] else []).length + 1)
        (if next then [comma] else []))
      (fun p => (ensure p ((if next then 1 else 0) + 1)).bind (fun p => some (if next then p.write [comma] else p))) := by
  intro p husable
  rw [put_agrees (Nat.le_succ _) p husable]
  cases next with
  | true => exact Option.map_eq_bind
  | false =>
      show (ensure p 1).map (PrintBuffer.write []) = (ensure p 1).bind some
      cases ensure p 1 with
      | none => rfl
      | some p' => exact congrArg (fun text => some { p' with text := text }) (List.append_nil p'.text)

theorem printItems_agrees (strings : List (Str × Str)) (depth : Nat) (hk : Agrees k k') :
    Agrees (fun p => printMembers libc false false depth (strings.map (fun x => (x.1, .string x.2))) p >>= k)
      (fun p => (printItems strings p).bind k') := by
  induction strings with
  | nil => exact hk
  | cons x strings ih =>
      have hnext : (if (strings.map (fun x => (x.1, Item.string (ν := ν) x.2))).isEmpty then [] else [comma])
          ++ inFormat false newline = if !strings.isEmpty then [comma] else [] := by
        cases strings with
        | nil => rfl
        | cons y strings => rfl
      generalize hsep : (if !strings.isEmpty then [comma] else []) = separator at hnext
      have hseparator : Prints false 2 separator (put false (separator.length + 1) (separator.length + 1) separator) :=
        put_prints (Nat.le_succ _) (Nat.le_succ _) rfl
      have hcolon : Prints false 1 [colon] (put false 1 1 [colon]) := put_prints (by decide) (by decide) rfl
      have hrest := (hsep ▸ separator_agrees (!strings.isEmpty)).bind hseparator ih
      have hvalue := (printString_agrees x.2).bind (printString_prints x.2) hrest
      have hmember := (printString_agrees x.1).bind (printString_prints x.1)
        (Agrees.bind (put_agrees (by decide)) hcolon hvalue)
      intro p husable
      have hp := hmember p husable
      simp only [Option.bind_assoc] at hp
      simp only [printItems, printItem, Option.bind_eq_bind, Option.bind_assoc, Option.pure_def]
      refine Eq.trans ?_ hp
      simp only [List.map_cons, printMembers, putIf, hnext, bind_assoc]
      rfl

/-- **The two models of printing agree** on the objects of strings. -/
theorem print_strings (strings : List (Str × Str)) :
    (print libc false (stringsItem strings)).toOption = printUnformatted strings := by
  have husable : Usable ⟨[], 256⟩ := ⟨by decide, Or.inl (by decide)⟩
  have hopen : Prints false 2 [openBrace] (put false 2 1 [openBrace]) := put_prints (by decide) (by decide) rfl
  have hclose : Agrees (put false 2 2 [closeBrace]) (fun p => (ensure p 2).map (PrintBuffer.write [closeBrace])) :=
    put_agrees (by decide)
  have hopened : Agrees (put false 2 1 [openBrace]) (fun p => (ensure p 2).map (PrintBuffer.write [openBrace])) :=
    put_agrees (by decide)
  have hobject : (printValue libc false false 0 (stringsItem strings) ⟨[], 256⟩).toOption
      = printObject strings ⟨[], 256⟩ := by
    rw [stringsItem, printValue]
    exact hopened.bind hopen (printItems_agrees strings 1 hclose) ⟨[], 256⟩ husable
  rw [printUnformatted, ← hobject, print]
  cases printValue libc false false 0 (stringsItem strings) ⟨[], 256⟩ with
  | ok p => rfl
  | error e => rfl

/-! ## The body -/

variable {params : StrMap}

/-- The parameters as they are added to the object, cut at their first NUL. -/
def paramsItem (params : StrMap) : Item ν := stringsItem (items params)

theorem printable_params (params : StrMap) : Printable libc 1 (paramsItem params) := by
  refine WellFormed.object (List.forall_mem_map.mpr (fun x hx => ?_)) (List.forall_mem_map.mpr (fun x hx => ?_))
  · obtain ⟨y, -, rfl⟩ := List.mem_map.mp hx
    exact not_mem_cStr y.1
  · obtain ⟨y, -, rfl⟩ := List.mem_map.mp hx
    exact WellFormed.string (not_mem_cStr y.2)

/-- What a reader of the body with `cJSON_Parse` gets; without a body the text was too large to be printed. -/
def ReadsBack (libc : Libc ν) (params : StrMap) : Option Str → Prop
  | some body => parseWithOpts libc body true = .ok (paramsItem params, body.length)
  | none      => intMax < (valueText libc false 0 (paramsItem params)).length + 2

/-- **The body that the gateway posts is the parameters**, for every parser of `cJSON.c` that reads it: all names and
    values come back, whatever characters they hold, and in order. -/
theorem posted_read_back (libc : Libc ν) (params : StrMap) : ReadsBack libc params (gatewayBody params) := by
  have hagree : (print libc false (paramsItem params)).toOption = printUnformatted (items params) := print_strings _
  rw [print_eq] at hagree
  by_cases hle : (valueText libc false 0 (paramsItem params)).length + 2 ≤ intMax
  · rw [if_pos hle] at hagree
    rw [gatewayBody_eq hagree.symm]
    exact valueText_read_back (printable_params params) (by decide) true
  · rw [if_neg hle] at hagree
    have hnone : gatewayBody params = none := by
      rw [gatewayBody, ← hagree]
      rfl
    rw [hnone]
    exact Nat.not_le.mp hle

end CJson
end AstraeaGateway
