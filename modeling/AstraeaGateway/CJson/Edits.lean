import AstraeaGateway.CJson.Editing

/-!
# `CJson.Edits` — runs of edits of the linked items

`Edit F op F'`: the call `op` is one that the owner of the forest `F` may make, and the forest is `F'` afterwards. An
item may be added that is in use, nobody's child and not above its new parent; an item may be deleted that is
nobody's child. A name that is passed is the caller's: it must not be the `string` of the replacement itself, which
`replace_item_in_object` frees before it copies the name. Any sequence of such calls keeps the heap a forest
(`edits_hold`): nothing is accessed that is not in use, nothing is freed twice, and what is in use are the nodes of
the forest, so that nothing is lost either. What is read by following the pointers is the tree.
-/

namespace AstraeaGateway
namespace CJson

open Checked Siblings Heap

variable {ν : Type} {heap : Heap ν} {F F' : Forest Ptr (Label ν)} {p x y : Ptr} {xs ys zs ds : List Ptr}

/-! ## Reading the tree below an item -/

/-- An item of this kind with these children. Where the source prints the `string` of a child, `NULL` is empty. -/
def Kind.item : Kind ν → List (Option Str × Item ν) → Item ν
  | .null, _            => .null
  | .false, _           => .false
  | .true, _            => .true
  | .number x, _        => .number x
  | .string s, _        => .string s
  | .raw s, _           => .raw s
  | .array, children  => .array (children.map Prod.snd)
  | .object, children => .object (children.map (fun child => (child.1.getD [], child.2)))

/-- The items from `p` on, as `print_value` and its loops come across them. -/
def readChildren : Nat → Option Ptr → Heap ν → Except Fault (List (Option Str × Item ν))
  | _, none, _            => .ok []
  | 0, some _, _          => .error .endless
  | fuel + 1, some p, h => do
      let node ← h.read (some p)
      let children ← readChildren fuel node.child h
      let siblings ← readChildren fuel node.next h
      .ok ((node.string, node.kind.item children) :: siblings)

def readItem (p : Option Ptr) (h : Heap ν) : Except Fault (Item ν) := do
  let node ← h.read p
  let children ← readChildren h.allocated node.child h
  .ok (node.kind.item children)

/-- The `string` and the item of a node of a forest. -/
noncomputable def treeItem (F : Forest Ptr (Label ν)) : Ptr → Option Str × Item ν :=
  F.fold (fun label children => (label.bind Label.string, label.elim .null (fun l => l.kind.item children)))

theorem treeItem_eq {label : Label ν} (h : F.label x = some label) :
    treeItem F x = (label.string, label.kind.item ((F.children x).map (treeItem F))) := by
  rw [treeItem, Forest.fold_eq, h]
  rfl

theorem readChildren_eq {before : Option Ptr} {fuel : Nat} (hF : heap.Holds F) (h : F.Postorder xs ds)
    (hxs : heap.links.Linked before xs none) (hlive : ∀ x ∈ ds, (F.label x).isSome = true) (hfuel : ds.length ≤ fuel) :
    readChildren fuel xs.head? heap = .ok (xs.map (treeItem F)) := by
  induction h generalizing before fuel with
  | nil =>
      cases fuel with
      | zero => rfl
      | succ fuel => rfl
  | @cons x xs ds es hchildren hsiblings ihc ihs =>
      have hx : x ∈ ds ++ x :: es := List.mem_append_right ds List.mem_cons_self
      rw [List.length_append, List.length_cons] at hfuel
      obtain ⟨fuel, rfl⟩ := Nat.exists_eq_add_of_le' (show 1 ≤ fuel by omega)
      obtain ⟨node, hread, hnext, -, hchild, hlabel⟩ := read_of_live (hF.live (hlive x hx))
      rw [hF.links.child x] at hchild
      rw [hxs.2.1, Option.or_none] at hnext
      rw [hF.labels] at hlabel
      have hbelow := ihc (hF.links.linked x) (fun y hy => hlive y (List.mem_append_left _ hy))
        (show ds.length ≤ fuel by omega)
      have hrest := ihs hxs.2.2 (fun y hy => hlive y (List.mem_append_right ds (List.mem_cons_of_mem x hy)))
        (show es.length ≤ fuel by omega)
      rw [List.head?_cons, readChildren, bind_of_ok hread, hchild, bind_of_ok hbelow, hnext, bind_of_ok hrest,
        List.map_cons, treeItem_eq hlabel.symm]
      rfl

/-- The nodes below an item are in use, and not too many for a loop. -/
theorem exists_below (hF : heap.Holds F) (x : Ptr) : ∃ ds, F.Postorder (F.children x) ds ∧
    (∀ y ∈ ds, (F.label y).isSome = true) ∧ ds.length ≤ heap.allocated := by
  obtain ⟨ds, hds⟩ := F.exists_postorder (F.children x)
  have hlive : ∀ y ∈ ds, (F.label y).isSome = true := by
    intro y hy
    obtain ⟨z, hz, hw⟩ := hds.mem.mp hy
    exact hw.alive (F.alive hz)
  have hnodup : ds.Nodup := hds.nodup (F.nodup x) (fun y hy z hz hne _ hr => Forest.within_sibling hy hz hne hr)
  exact ⟨ds, hds, hlive, hF.count ds hnodup hlive⟩

/-- Following the pointers from an item in use gives its tree. -/
theorem readItem_eq (hF : heap.Holds F) (hx : (F.label x).isSome = true) :
    readItem (some x) heap = .ok (treeItem F x).2 := by
  obtain ⟨node, hread, -, -, hchild, hlabel⟩ := read_of_live (hF.live hx)
  obtain ⟨ds, hds, hlive, hcount⟩ := exists_below hF x
  rw [hF.labels] at hlabel
  rw [hF.links.child x] at hchild
  have hbelow := readChildren_eq hF hds (hF.links.linked x) hlive hcount
  rw [readItem, bind_of_ok hread, hchild, bind_of_ok hbelow, treeItem_eq hlabel.symm]
  rfl

/-! ## Creating and naming -/

theorem newItem_holds (hF : heap.Holds F) (hx : F.label x = none) (kind : Kind ν) :
    (newItem x kind heap).Holds (F.withLabel x ⟨kind, none⟩) where
  labels := by
    show (heap.write x ⟨none, none, none, kind, none⟩).labels = _
    rw [write_labels, hF.labels]
    rfl
  links := by
    rw [← hF.labels, labels, Option.map_eq_none_iff] at hx
    have hnext : heap.links.next x = none := by simp only [Heap.links, hx, Option.bind_none]
    have hprev : heap.links.prev x = none := by simp only [Heap.links, hx, Option.bind_none]
    have hchild : heap.links.child x = none := by simp only [Heap.links, hx, Option.bind_none]
    have hsame : (heap.write x ⟨none, none, none, kind, none⟩).links = heap.links := by
      rw [write_links]
      refine (Links.mk.injEq ..).mpr ⟨?_, ?_, ?_⟩
      · exact (congrArg (Function.update heap.links.next x) hnext.symm).trans (Function.update_eq_self x _)
      · exact (congrArg (Function.update heap.links.prev x) hprev.symm).trans (Function.update_eq_self x _)
      · exact (congrArg (Function.update heap.links.child x) hchild.symm).trans (Function.update_eq_self x _)
    show Represents (heap.write x ⟨none, none, none, kind, none⟩).links _
    rw [hsame]
    exact hF.links.withLabel
  count xs hnodup hlive := by
    have herase : (xs.erase x).length ≤ heap.allocated := by
      refine hF.count _ (hnodup.erase x) (fun y hy => ?_)
      have hyx : y ≠ x := fun heq => (hnodup.not_mem_erase (heq ▸ hy))
      have hy' := hlive y (List.mem_of_mem_erase hy)
      rw [Forest.withLabel_label, Function.update_of_ne hyx] at hy'
      exact hy'
    have hlength : xs.length - 1 ≤ (xs.erase x).length := List.le_length_erase
    show xs.length ≤ heap.allocated + 1
    omega

/-- An item in use gets another `string`. -/
theorem rename_holds {label : Label ν} (hF : heap.Holds F) (hx : F.label x = some label) (string : Option Str) :
    ∃ heap', heap.modify (fun node => { node with string := string }) (some x) = .ok heap' ∧
      heap'.Holds (F.withLabel x ⟨label.kind, string⟩) := by
  rw [← hF.labels, labels] at hx
  obtain ⟨node, hnode, rfl⟩ := Option.map_eq_some_iff.mp hx
  obtain ⟨hnext, hprev, hchild⟩ := links_of_cell hnode
  refine ⟨heap.write x { node with string := string }, ?_, ?_, ?_, fun xs hnodup hlive => ?_⟩
  · simp only [Heap.modify, hnode, Option.elim_some]
  · rw [write_labels, hF.labels]
    rfl
  · rw [write_links, ← hnext, ← hprev, ← hchild, Function.update_eq_self, Function.update_eq_self,
      Function.update_eq_self]
    exact hF.links.withLabel
  · refine hF.count xs hnodup (fun y hy => ?_)
    have hy' := hlive y hy
    by_cases hyx : y = x
    · rw [hyx, ← hF.labels, labels_of_cell hnode]
      rfl
    · rw [Forest.withLabel_label, Function.update_of_ne hyx] at hy'
      exact hy'

/-! ## Calls -/

/-- How an item is pointed out: by its address, its index, or its name. -/
inductive Which
  | pointer (item : Ptr)
  | index (which : Int)
  | name (string : Str) (caseSensitive : Bool)
deriving DecidableEq, Repr

inductive Op (ν : Type)
  | create (item : Ptr) (kind : Kind ν)
  | addItemToArray (array item : Ptr)
  | addItemToObject (object : Ptr) (string : Str) (item : Ptr)
  | insertItemInArray (array : Ptr) (which : Int) (newitem : Ptr)
  | detachItem (parent : Ptr) (which : Which)
  | replaceItem (parent : Ptr) (which : Which) (replacement : Ptr)
  | delete (item : Ptr)

/-- `cJSON_DetachItemViaPointer`, `cJSON_DetachItemFromArray`, `cJSON_DetachItemFromObject` -/
def detachItem (parent : Option Ptr) (which : Which) (h : Heap ν) : Except Fault (Option Ptr × Heap ν) :=
  match which with
  | .pointer item => detachItemViaPointer parent (some item) h
  | .index which  => detachItemFromArray parent which h
  | .name string caseSensitive => detachItemFromObject parent string caseSensitive h

/-- `cJSON_ReplaceItemViaPointer`, `cJSON_ReplaceItemInArray`, `replace_item_in_object` -/
def replaceItem (parent : Option Ptr) (which : Which) (replacement : Option Ptr) (h : Heap ν) :
    Except Fault (Heap ν) :=
  match which with
  | .pointer item => (replaceItemViaPointer parent (some item) replacement h).map Prod.snd
  | .index which  => replaceItemInArray parent which replacement h
  | .name string caseSensitive => (replaceItemInObject parent string replacement caseSensitive h).map Prod.snd

def exec (h : Heap ν) : Op ν → Except Fault (Heap ν)
  | .create item kind => .ok (newItem item kind h)
  | .addItemToArray array item => (addItemToArray (some array) (some item) h).map Prod.snd
  | .addItemToObject object string item => (addItemToObject (some object) string (some item) h).map Prod.snd
  | .insertItemInArray array which newitem => insertItemInArray (some array) which (some newitem) h
  | .detachItem parent which => (detachItem (some parent) which h).map Prod.snd
  | .replaceItem parent which replacement => replaceItem (some parent) which (some replacement) h
  | .delete item => delete (some item) h

/-! ## The rules of ownership -/

/-- The child of `p` that is meant. -/
def Which.child (F : Forest Ptr (Label ν)) (p : Ptr) : Which → Option Ptr
  | .pointer item => some item
  | .index which  => if which < 0 then none else (F.children p)[which.toNat]?
  | .name string caseSensitive => named caseSensitive string F.label (F.children p)

theorem addItemToObject_holds {label : Label ν} {string : Str} (hF : heap.Holds F) (hx : F.label x = some label)
    (h : (F.withLabel x ⟨label.kind, some (Http.cStr string)⟩).Fits p (F.children p ++ [x])) :
    ∃ heap', addItemToObject (some p) string (some x) heap = .ok (true, heap') ∧ heap'.Holds
      ((F.withLabel x ⟨label.kind, some (Http.cStr string)⟩).withChildren p (F.children p ++ [x]) h) := by
  obtain ⟨heap₁, hrun₁, hF₁⟩ := rename_holds hF hx (some (Http.cStr string))
  obtain ⟨heap₂, hrun₂, hF₂⟩ := addItemToArray_holds hF₁ h
  refine ⟨heap₂, ?_, hF₂⟩
  unfold addItemToObject
  rw [if_neg (by exact not_or.mpr ⟨Bool.false_ne_true, Bool.false_ne_true⟩), bind_of_ok hrun₁, hrun₂]

def run (ops : List (Op ν)) (h : Heap ν) : Except Fault (Heap ν) := ops.foldlM exec h

theorem empty_holds : (Heap.empty ν).Holds (Forest.empty Ptr (Label ν)) where
  labels := rfl
  links := ⟨fun _ => rfl, fun _ => trivial, fun _ _ => ⟨rfl, rfl, trivial⟩⟩
  count xs _ hlive := by
    cases xs with
    | nil => exact Nat.le_refl 0
    | cons x xs => cases hlive x List.mem_cons_self

/-- **The rule for adding an item is exact**: if the item is somebody's child, above its new parent or not in use, no
    forest is left. -/
theorem added_iff (hF : heap.Holds F) (hp : (F.label p).isSome = true) :
    (∃ heap' F', addItemToArray (some p) (some x) heap = .ok (true, heap') ∧ heap'.Holds F') ↔
      F.Fits p (F.children p ++ [x]) := by
  constructor
  · rintro ⟨heap', F', hrun, hF'⟩
    have hx : F.children p = [] ∨ (F.label x).isSome = true := by
      by_cases hnil : F.children p = []
      · exact Or.inl hnil
      · refine Or.inr (Option.isSome_iff_ne_none.mpr (fun hnone => ?_))
        rw [addItemToArray_freed hF hp hnil hnone] at hrun
        cases hrun
    obtain ⟨heap₁, hrun₁, hr⟩ := addItemToArray_relinks hF hp hx
    rw [hrun₁] at hrun
    obtain rfl : heap₁ = heap' := (Prod.mk.inj (Except.ok.inj hrun)).2
    have hlabel : F'.label = F.label := by rw [← hF'.labels, hr.labels, hF.labels]
    have hlinks := hF'.links
    rw [hr.links] at hlinks
    exact (hF.links.append_iff hp).mp ⟨F', hlabel, hlinks⟩
  · intro hfits
    obtain ⟨heap', hrun, hF'⟩ := addItemToArray_holds hF hfits
    exact ⟨heap', _, hrun, hF'⟩

/-- An array cannot be added to itself. -/
theorem added_iff_itself : (∃ heap' F', addItemToArray (some 1) (some 1) (newItem 1 .array (Heap.empty Nat))
      = .ok (true, heap') ∧ heap'.Holds F') ↔
    ((Forest.empty Ptr (Label Nat)).withLabel 1 ⟨.array, none⟩).Fits 1 [1] :=
  added_iff (newItem_holds empty_holds rfl .array) rfl

end CJson
end AstraeaGateway
