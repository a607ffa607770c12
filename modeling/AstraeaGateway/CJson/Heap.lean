import AstraeaGateway.Http.JsonBody
import AstraeaGateway.Forest
import AstraeaGateway.CJson.Item

/-!
# `CJson.Heap` — the linked items of `cJSON.c`

The items as the source has them: blocks of memory that point to each other, and the functions that add, insert,
look up, detach, replace and delete them. `NULL` is `none`. A pointer that is followed has to lead to a block in
use, or the function fails; so does a loop that goes on for more steps than blocks were ever allocated, since it
goes round in a circle. `malloc` succeeds; the address it returns is an argument. Strings are values here, and
references (`cJSON_IsReference`, `cJSON_StringIsConst`), which share a child or a string with another item, are
left out.
-/

namespace AstraeaGateway
namespace CJson

open Siblings

/-- The address of a block. -/
abbrev Ptr := Nat

/-- `type`, with the `valuestring` or `valuedouble` that the type makes use of. -/
inductive Kind (ν : Type)
  | null
  | false
  | true
  | number (valuedouble : ν)
  | string (valuestring : Str)
  | raw (valuestring : Str)
  | array
  | object
deriving DecidableEq

/-- `struct cJSON` -/
structure Node (ν : Type) where
  next   : Option Ptr
  prev   : Option Ptr
  child  : Option Ptr
  kind   : Kind ν
  string : Option Str

/-- What an item is apart from its place. -/
structure Label (ν : Type) where
  kind   : Kind ν
  string : Option Str
deriving DecidableEq

variable {ν : Type}

def Node.label (node : Node ν) : Label ν := ⟨node.kind, node.string⟩

/-- The blocks in use, and how many `malloc` has returned so far. -/
structure Heap (ν : Type) where
  cells     : Ptr → Option (Node ν)
  allocated : Nat

/-- What must not happen: `NULL` or a block that is not in use is accessed, or a loop does not end. -/
inductive Fault
  | null
  | freed
  | endless
deriving DecidableEq, Repr

namespace Heap

def empty (ν : Type) : Heap ν := ⟨fun _ => none, 0⟩

def read (h : Heap ν) : Option Ptr → Except Fault (Node ν)
  | none   => .error .null
  | some p => (h.cells p).elim (.error .freed) .ok

def write (h : Heap ν) (p : Ptr) (node : Node ν) : Heap ν :=
  { h with cells := Function.update h.cells p (some node) }

/-- The block at `p` is changed. -/
def modify (h : Heap ν) (f : Node ν → Node ν) : Option Ptr → Except Fault (Heap ν)
  | none   => .error .null
  | some p => (h.cells p).elim (.error .freed) (fun node => .ok (h.write p (f node)))

/-- `p->next = v` -/
def setNext (h : Heap ν) (p v : Option Ptr) : Except Fault (Heap ν) := h.modify (fun node => { node with next := v }) p

/-- `p->prev = v` -/
def setPrev (h : Heap ν) (p v : Option Ptr) : Except Fault (Heap ν) := h.modify (fun node => { node with prev := v }) p

/-- `p->child = v` -/
def setChild (h : Heap ν) (p v : Option Ptr) : Except Fault (Heap ν) :=
  h.modify (fun node => { node with child := v }) p

/-- `if (p != NULL) p->next = v;` -/
def setNextIf (h : Heap ν) (p v : Option Ptr) : Except Fault (Heap ν) := if p.isSome then h.setNext p v else .ok h

/-- `if (p != NULL) p->prev = v;` -/
def setPrevIf (h : Heap ν) (p v : Option Ptr) : Except Fault (Heap ν) := if p.isSome then h.setPrev p v else .ok h

/-- `free` -/
def free (h : Heap ν) (p : Ptr) : Heap ν := { h with cells := Function.update h.cells p none }

end Heap

/-! ## Creating and deleting -/

/-- `cJSON_New_Item` and the `type` that the constructors set, where `malloc` returns `p`. -/
def newItem (p : Ptr) (kind : Kind ν) (h : Heap ν) : Heap ν where
  cells := Function.update h.cells p (some ⟨none, none, none, kind, none⟩)
  allocated := h.allocated + 1

/-- `cJSON_Delete`: the item, its next siblings, and all below. -/
def deleteFrom : Nat → Option Ptr → Heap ν → Except Fault (Heap ν)
  | _, none, h            => .ok h
  | 0, some _, _          => .error .endless
  | fuel + 1, some p, h => do
      let node ← h.read (some p)
      let h ← deleteFrom fuel node.child h
      let _ ← h.read (some p)
      deleteFrom fuel node.next (h.free p)

def delete (item : Option Ptr) (h : Heap ν) : Except Fault (Heap ν) := deleteFrom h.allocated item h

/-! ## Looking up -/

/-- `get_array_item` from a child on -/
def itemAt (h : Heap ν) : Nat → Option Ptr → Except Fault (Option Ptr)
  | _, none            => .ok none
  | 0, some p          => .ok (some p)
  | index + 1, some p => do
      let node ← h.read (some p)
      itemAt h index node.next

/-- `get_array_item` -/
def getArrayItem (array : Option Ptr) (index : Nat) (h : Heap ν) : Except Fault (Option Ptr) :=
  if array.isNone then .ok none
  else do
    let node ← h.read array
    itemAt h index node.child

/-- `tolower` in the locale `C` -/
def tolower (b : UInt8) : UInt8 := if 65 ≤ b ∧ b ≤ 90 then b + 32 else b

/-- The condition under which the loops of `get_object_item` stop at an item with this `string`. -/
def isNamed (caseSensitive : Bool) (name : Str) (string : Option Str) : Bool :=
  if caseSensitive then string.elim true (fun s => Http.cStr name == s)
  else string.elim false (fun s => (Http.cStr name).map tolower == s.map tolower)

/-- The loops of `get_object_item`. -/
def itemNamed (caseSensitive : Bool) (name : Str) (h : Heap ν) : Nat → Option Ptr → Except Fault (Option Ptr)
  | _, none           => .ok none
  | 0, some _         => .error .endless
  | fuel + 1, some p => do
      let node ← h.read (some p)
      if isNamed caseSensitive name node.string then .ok (if node.string.isNone then none else some p)
      else itemNamed caseSensitive name h fuel node.next

/-- `get_object_item` -/
def getObjectItem (object : Option Ptr) (name : Str) (caseSensitive : Bool) (h : Heap ν) :
    Except Fault (Option Ptr) :=
  if object.isNone then .ok none
  else do
    let node ← h.read object
    itemNamed caseSensitive name h h.allocated node.child

/-! ## Adding -/

/-- `suffix_object` -/
def suffixObject (prev item : Option Ptr) (h : Heap ν) : Except Fault (Heap ν) := do
  let h ← h.setNext prev item
  h.setPrev item prev

/-- `while (child->next) child = child->next;` -/
def lastSibling (h : Heap ν) : Nat → Option Ptr → Except Fault (Option Ptr)
  | 0, _             => .error .endless
  | fuel + 1, child => do
      let node ← h.read child
      if node.next.isSome then lastSibling h fuel node.next else .ok child

/-- `add_item_to_array` -/
def addItemToArray (array item : Option Ptr) (h : Heap ν) : Except Fault (Bool × Heap ν) :=
  if item.isNone ∨ array.isNone then .ok (false, h)
  else do
    let node ← h.read array
    if node.child.isNone then
      let h ← h.setChild array item
      .ok (true, h)
    else
      let child ← lastSibling h h.allocated node.child
      let h ← suffixObject child item h
      .ok (true, h)

/-- `add_item_to_object` -/
def addItemToObject (object : Option Ptr) (string : Str) (item : Option Ptr) (h : Heap ν) :
    Except Fault (Bool × Heap ν) :=
  if object.isNone ∨ item.isNone then .ok (false, h)
  else do
    let h ← h.modify (fun node => { node with string := some (Http.cStr string) }) item
    addItemToArray object item h

/-- `cJSON_AddStringToObject`, where `malloc` returns `p` for the new item. -/
def addStringToObject (p : Ptr) (object : Option Ptr) (name string : Str) (h : Heap ν) :
    Except Fault (Option Ptr × Heap ν) := do
  let (added, h) ← addItemToObject object name (some p) (newItem p (.string (Http.cStr string)) h)
  if added then .ok (some p, h)
  else
    let h ← delete (some p) h
    .ok (none, h)

/-- `cJSON_InsertItemInArray` -/
def insertItemInArray (array : Option Ptr) (which : Int) (newitem : Option Ptr) (h : Heap ν) :
    Except Fault (Heap ν) :=
  if which < 0 then .ok h
  else do
    let afterInserted ← getArrayItem array which.toNat h
    if afterInserted.isNone then
      let (_, h) ← addItemToArray array newitem h
      .ok h
    else
      let h ← h.setNext newitem afterInserted
      let node ← h.read afterInserted
      let h ← h.setPrev newitem node.prev
      let h ← h.setPrev afterInserted newitem
      let node ← h.read array
      if afterInserted = node.child then h.setChild array newitem
      else
        let node ← h.read newitem
        h.setNext node.prev newitem

/-! ## Detaching and replacing -/

/-- `if (item == parent->child) parent->child = item->next;` -/
def leadPast (parent item : Option Ptr) (h : Heap ν) : Except Fault (Heap ν) := do
  let node ← h.read parent
  if item = node.child then
    let node ← h.read item
    h.setChild parent node.next
  else .ok h

/-- `cJSON_DetachItemViaPointer` -/
def detachItemViaPointer (parent item : Option Ptr) (h : Heap ν) : Except Fault (Option Ptr × Heap ν) :=
  if parent.isNone ∨ item.isNone then .ok (none, h)
  else do
    let node ← h.read item
    let h ← h.setNextIf node.prev node.next
    let node ← h.read item
    let h ← h.setPrevIf node.next node.prev
    let h ← leadPast parent item h
    let h ← h.setPrev item none
    let h ← h.setNext item none
    .ok (item, h)

/-- `cJSON_DetachItemFromArray` -/
def detachItemFromArray (array : Option Ptr) (which : Int) (h : Heap ν) : Except Fault (Option Ptr × Heap ν) :=
  if which < 0 then .ok (none, h)
  else do
    let item ← getArrayItem array which.toNat h
    detachItemViaPointer array item h

/-- `cJSON_DetachItemFromObject`, `cJSON_DetachItemFromObjectCaseSensitive` -/
def detachItemFromObject (object : Option Ptr) (string : Str) (caseSensitive : Bool) (h : Heap ν) :
    Except Fault (Option Ptr × Heap ν) := do
  let toDetach ← getObjectItem object string caseSensitive h
  detachItemViaPointer object toDetach h

/-- `if (parent->child == item) parent->child = replacement;` -/
def leadTo (parent item replacement : Option Ptr) (h : Heap ν) : Except Fault (Heap ν) := do
  let node ← h.read parent
  if node.child = item then h.setChild parent replacement else .ok h

/-- `cJSON_ReplaceItemViaPointer` -/
def replaceItemViaPointer (parent item replacement : Option Ptr) (h : Heap ν) : Except Fault (Bool × Heap ν) :=
  if parent.isNone ∨ replacement.isNone ∨ item.isNone then .ok (false, h)
  else if replacement = item then .ok (true, h)
  else do
    let node ← h.read item
    let h ← h.setNext replacement node.next
    let node ← h.read item
    let h ← h.setPrev replacement node.prev
    let node ← h.read replacement
    let h ← h.setPrevIf node.next replacement
    let node ← h.read replacement
    let h ← h.setNextIf node.prev replacement
    let h ← leadTo parent item replacement h
    let h ← h.setNext item none
    let h ← h.setPrev item none
    let h ← delete item h
    .ok (true, h)

/-- `cJSON_ReplaceItemInArray` -/
def replaceItemInArray (array : Option Ptr) (which : Int) (newitem : Option Ptr) (h : Heap ν) :
    Except Fault (Heap ν) :=
  if which < 0 then .ok h
  else do
    let item ← getArrayItem array which.toNat h
    let (_, h) ← replaceItemViaPointer array item newitem h
    .ok h

/-- `replace_item_in_object`, for a `string` that is not the replacement's own: the old name is freed before `string`
    is copied. -/
def replaceItemInObject (object : Option Ptr) (string : Str) (replacement : Option Ptr) (caseSensitive : Bool)
    (h : Heap ν) : Except Fault (Bool × Heap ν) :=
  if replacement.isNone then .ok (false, h)
  else do
    let h ← h.modify (fun node => { node with string := some (Http.cStr string) }) replacement
    let item ← getObjectItem object string caseSensitive h
    let (_, h) ← replaceItemViaPointer object item replacement h
    .ok (true, h)

end CJson
end AstraeaGateway
