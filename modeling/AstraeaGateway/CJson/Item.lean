import AstraeaGateway.Data
import AstraeaGateway.Decimal
import Mathlib.Data.List.TakeWhile
import Mathlib.Order.Basic

/-!
# `CJson.Item` — the values of `cJSON.c`

A `cJSON` item with what its type makes use of; the children of an array or an object, a linked list in the
source, are a list here. A `valuestring` is a C string. `valueint` is left out, since nothing here reads it.
The type `ν` stands for `double`: what the code asks of it is in `Libc`.
-/

namespace AstraeaGateway
namespace CJson

/-- An item; a child of an object comes with its `string`. `cJSON_Raw` is text that is printed as it is. -/
inductive Item (ν : Type)
  | null
  | false
  | true
  | number (valuedouble : ν)
  | string (valuestring : Str)
  | raw (valuestring : Str)
  | array (children : List (Item ν))
  | object (children : List (Str × Item ν))

variable {ν : Type}

def openBracket : UInt8 := 91
def closeBracket : UInt8 := 93

/-- The characters that `parse_number` copies. -/
def isNumberChar (b : UInt8) : Bool :=
  (48 ≤ b && b ≤ 57) || b == 43 || b == 45 || b == 101 || b == 69 || b == 46

/-- The first character that makes `parse_value` read a number. -/
def startsNumber (b : UInt8) : Bool := b == 45 || (48 ≤ b && b ≤ 57)

/-- `t` is a numeral for `x`, as `strtod` reads it, in the characters that `parse_number` copies. -/
structure Numeral (strtod : Str → Option (ν × Nat)) (t : Str) (x : ν) : Prop where
  value : strtod t = some (x, t.length)
  chars : ∀ b ∈ t, isNumberChar b = true
  start : ∃ b rest, t = b :: rest ∧ startsNumber b = true
  short : t.length ≤ 63

/-- The functions of the C library on `double`, with what is documented of them: a number other than NaN and
    the infinities is recovered from 17 significant digits, and from 15 if reading them gives it back. -/
structure Libc (ν : Type) where
  /-- `strtod`: the number, and how many characters were read; `none` where nothing could be converted. -/
  strtod    : Str → Option (ν × Nat)
  /-- `(d * 0) == 0` -/
  isFinite  : ν → Bool
  /-- `==` -/
  equal     : ν → ν → Bool
  /-- `sprintf(_, "%1.15g", d)` -/
  format15  : ν → Str
  /-- `sprintf(_, "%1.17g", d)` -/
  format17  : ν → Str
  /-- `sscanf(_, "%lg", &test)`, if it converts a number -/
  scan      : Str → Option ν
  strtod_le : ∀ {s x n}, strtod s = some (x, n) → 0 < n ∧ n ≤ s.length
  numeral17 : ∀ {x}, isFinite x = true → Numeral strtod (format17 x) x
  numeral15 : ∀ {x y}, isFinite x = true → scan (format15 x) = some y → equal y x = true →
    Numeral strtod (format15 x) x
  length17  : ∀ {x}, isFinite x = true → (format17 x).length ≤ 25
  length15  : ∀ {x}, isFinite x = true → (format15 x).length ≤ 25

/-! ### An instance -/

/-- The number in front of a text, if it is a natural number. -/
def naturalPrefix (s : Str) : Option (Nat × Nat) :=
  let digits := s.takeWhile Decimal.isDigit
  (Decimal.natValue digits).map (fun n => (n, digits.length))

/-- `naturalPrefix` reads the decimal digits of a number, and all of them. -/
theorem naturalPrefix_digits (n : Nat) :
    naturalPrefix (Decimal.digits n) = some (n, (Decimal.digits n).length) := by
  have hall : (Decimal.digits n).takeWhile Decimal.isDigit = Decimal.digits n :=
    List.takeWhile_eq_self_iff.mpr (fun _ hb => Decimal.isDigit_of_mem_digits hb)
  unfold naturalPrefix
  dsimp only
  rw [hall, Decimal.natValue_digits, Option.map_some]

theorem length_digits_le {n : Nat} (h : n < 10 ^ 15) : (Decimal.digits n).length ≤ 15 :=
  (Decimal.length_digits_le_iff (by decide)).mpr h

theorem isNumberChar_of_isDigit {b : UInt8} (h : Decimal.isDigit b = true) :
    isNumberChar b = true ∧ startsNumber b = true := by
  have hdigit : (48 ≤ b && b ≤ 57) = true := h
  simp only [isNumberChar, startsNumber, hdigit, Bool.true_or, Bool.or_true, and_self]

/-- Decimal digits are a numeral, as long as there are few of them. -/
theorem numeral_digits {n : Nat} (h : n < 10 ^ 15) : Numeral naturalPrefix (Decimal.digits n) n where
  value := naturalPrefix_digits n
  chars b hb := (isNumberChar_of_isDigit (Decimal.isDigit_of_mem_digits hb)).1
  start := by
    obtain ⟨b, rest, heq⟩ := List.exists_cons_of_ne_nil (Decimal.digits_ne_nil (n := n))
    have hb : b ∈ Decimal.digits n := by
      rw [heq]
      exact List.mem_cons_self
    exact ⟨b, rest, heq, (isNumberChar_of_isDigit (Decimal.isDigit_of_mem_digits hb)).2⟩
  short := Nat.le_trans (length_digits_le h) (by decide)

/-- What is documented of `strtod` holds of `naturalPrefix`. -/
theorem naturalPrefix_le {s : Str} {x n : Nat} (h : naturalPrefix s = some (x, n)) : 0 < n ∧ n ≤ s.length := by
  obtain ⟨y, hy, heq⟩ := Option.map_eq_some_iff.mp h
  obtain rfl := (Prod.mk.inj heq).2
  refine ⟨List.length_pos_of_ne_nil ?_, (List.takeWhile_sublist _).length_le⟩
  intro hnil
  rw [hnil] at hy
  cases hy

/-- The natural numbers of at most 15 digits, without sign, point or exponent. -/
def Libc.naturals : Libc Nat where
  strtod := naturalPrefix
  isFinite n := decide (n < 10 ^ 15)
  equal n m := n == m
  format15 := Decimal.digits
  format17 := Decimal.digits
  scan := Decimal.natValue
  strtod_le := naturalPrefix_le
  numeral17 h := numeral_digits (of_decide_eq_true h)
  numeral15 h _ _ := numeral_digits (of_decide_eq_true h)
  length17 h := Nat.le_trans (length_digits_le (of_decide_eq_true h)) (by decide)
  length15 h := Nat.le_trans (length_digits_le (of_decide_eq_true h)) (by decide)

/-! ## Items as trees -/

/-- Induction on items, with the hypothesis for all children. -/
@[elab_as_elim]
theorem Item.induct {P : Item ν → Prop} (null : P .null) (false : P .false) (true : P .true)
    (number : ∀ x, P (.number x)) (string : ∀ s, P (.string s)) (raw : ∀ s, P (.raw s))
    (array : ∀ children, (∀ c ∈ children, P c) → P (.array children))
    (object : ∀ children, (∀ c ∈ children, P c.2) → P (.object children)) : ∀ item, P item
  | .null => null
  | .false => false
  | .true => true
  | .number x => number x
  | .string s => string s
  | .raw s => raw s
  | .array children => array children (fun c _hc =>
      Item.induct null false true number string raw array object c)
  | .object children => object children (fun c _hc =>
      Item.induct null false true number string raw array object c.2)
termination_by item => sizeOf item
decreasing_by
  · have hlt := List.sizeOf_lt_of_mem _hc
    simp only [Item.array.sizeOf_spec]
    omega
  · have hlt := List.sizeOf_lt_of_mem _hc
    have hpair : sizeOf c.2 < sizeOf c := by
      obtain ⟨key, item⟩ := c
      simp only [Prod.mk.sizeOf_spec]
      omega
    simp only [Item.object.sizeOf_spec]
    omega

mutual

/-- How many arrays and objects stand around the innermost child. -/
def Item.depth : Item ν → Nat
  | .array children  => depthOfItems children + 1
  | .object children => depthOfMembers children + 1
  | _                => 0

def depthOfItems : List (Item ν) → Nat
  | []              => 0
  | item :: children => max item.depth (depthOfItems children)

def depthOfMembers : List (Str × Item ν) → Nat
  | []                     => 0
  | (_, item) :: children => max item.depth (depthOfMembers children)

end

variable {d : Nat}

/-- Children are nested no deeper than the deepest of them. -/
theorem depthOfItems_le {children : List (Item ν)} :
    depthOfItems children ≤ d ↔ ∀ c ∈ children, c.depth ≤ d := by
  induction children with
  | nil => simp [depthOfItems]
  | cons c children ih => rw [depthOfItems, Nat.max_le, ih, List.forall_mem_cons]

theorem depthOfMembers_le {children : List (Str × Item ν)} :
    depthOfMembers children ≤ d ↔ ∀ c ∈ children, c.2.depth ≤ d := by
  induction children with
  | nil => simp [depthOfMembers]
  | cons c children ih =>
      obtain ⟨key, item⟩ := c
      rw [depthOfMembers, Nat.max_le, ih, List.forall_mem_cons]

end CJson
end AstraeaGateway
