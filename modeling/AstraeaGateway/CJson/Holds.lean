import AstraeaGateway.CJson.Heap
import AstraeaGateway.Checked
import AstraeaGateway.SiblingEdits

/-!
# `CJson.Holds` — the linked items are a forest

`heap.Holds F`: the blocks in use are the nodes of the forest `F`, with its labels and its links. Each function of
`CJson.Heap` that edits the items turns a heap that holds a forest into one that holds the edited forest, without
accessing `NULL` or a block that is not in use and without running in a circle. Their writes are those of
`SiblingEdits`; what is to be shown here is that the code finds the pointers that they are about.
-/

namespace AstraeaGateway
namespace CJson

open Checked Siblings Siblings.Links

variable {ν : Type}

namespace Heap

def links (h : Heap ν) : Links Ptr where
  next p := (h.cells p).bind Node.next
  prev p := (h.cells p).bind Node.prev
  child p := (h.cells p).bind Node.child

def labels (h : Heap ν) (p : Ptr) : Option (Label ν) := (h.cells p).map Node.label

/-- `h'` is `h` with the links `L`. -/
structure Relinked (h h' : Heap ν) (L : Links Ptr) : Prop where
  links     : h'.links = L
  labels    : h'.labels = h.labels
  allocated : h'.allocated = h.allocated

/-- The blocks in use are the nodes of `F`. No list of them is longer than `malloc` has returned blocks. -/
structure Holds (h : Heap ν) (F : Forest Ptr (Label ν)) : Prop where
  labels : h.labels = F.label
  links  : Represents h.links F
  count  : ∀ xs : List Ptr, xs.Nodup → (∀ x ∈ xs, (F.label x).isSome = true) → xs.length ≤ h.allocated

variable {h h' : Heap ν} {L : Links Ptr} {F F' : Forest Ptr (Label ν)} {p : Ptr} {v w before : Option Ptr}
  {xs : List Ptr}

theorem Relinked.refl (h : Heap ν) : Relinked h h h.links := ⟨rfl, rfl, rfl⟩

theorem Relinked.trans {h₁ : Heap ν} {L₁ : Links Ptr} (h₁₂ : Relinked h h₁ L₁) (h₂₃ : Relinked h₁ h' L) :
    Relinked h h' L := ⟨h₂₃.links, h₂₃.labels.trans h₁₂.labels, h₂₃.allocated.trans h₁₂.allocated⟩

/-- A write of links allocates nothing and deletes nothing. -/
theorem Relinked.live (hr : Relinked h h' L) (hp : (h.labels p).isSome = true) : (h'.labels p).isSome = true := by
  rw [hr.labels]
  exact hp

/-- **Writes of links alone.** If the links now represent a forest with the same labels, the heap holds that
    forest. -/
theorem Holds.relinked (hF : h.Holds F) (hr : Relinked h h' L) (hL : Represents L F') (hlabel : F'.label = F.label) :
    h'.Holds F' where
  labels := by rw [hr.labels, hF.labels, hlabel]
  links := by
    rw [hr.links]
    exact hL
  count xs hnodup hlive := by
    rw [hr.allocated]
    rw [hlabel] at hlive
    exact hF.count xs hnodup hlive

/-! ## Accesses -/

/-- The links and the label of a block are those of its node. -/
theorem links_of_cell {node : Node ν} (h' : h.cells p = some node) :
    h.links.next p = node.next ∧ h.links.prev p = node.prev ∧ h.links.child p = node.child := by
  simp only [links, h', Option.bind_some, and_self]

theorem labels_of_cell {node : Node ν} (h' : h.cells p = some node) : h.labels p = some node.label := by
  rw [labels, h', Option.map_some]

/-- A block in use can be read, and what is read are its links and its label. -/
theorem read_of_live (hp : (h.labels p).isSome = true) : ∃ node, h.read (some p) = .ok node ∧
    node.next = h.links.next p ∧ node.prev = h.links.prev p ∧ node.child = h.links.child p ∧
    some node.label = h.labels p := by
  rw [labels, Option.isSome_map] at hp
  obtain ⟨node, hnode⟩ := Option.isSome_iff_exists.mp hp
  obtain ⟨hnext, hprev, hchild⟩ := links_of_cell hnode
  refine ⟨node, ?_, hnext.symm, hprev.symm, hchild.symm, (labels_of_cell hnode).symm⟩
  simp only [read, hnode, Option.elim_some]

/-- Reading a field behind a write is a write of that field. -/
theorem update_bind {γ : Type} (cells : Ptr → Option (Node ν)) (node : Node ν) (g : Node ν → Option γ) (q : Ptr) :
    (Function.update cells p (some node) q).bind g = Function.update (fun q => (cells q).bind g) p (g node) q := by
  by_cases hq : q = p
  · rw [hq, Function.update_self, Function.update_self, Option.bind_some]
  · rw [Function.update_of_ne hq, Function.update_of_ne hq]

/-- A write changes the links of its own block only, and its label only. -/
theorem write_links (h : Heap ν) (p : Ptr) (node : Node ν) : (h.write p node).links
    = ⟨Function.update h.links.next p node.next, Function.update h.links.prev p node.prev,
        Function.update h.links.child p node.child⟩ := by
  refine Links.mk.injEq .. |>.mpr ⟨?_, ?_, ?_⟩
  · exact funext (update_bind h.cells node Node.next)
  · exact funext (update_bind h.cells node Node.prev)
  · exact funext (update_bind h.cells node Node.child)

theorem write_labels (h : Heap ν) (p : Ptr) (node : Node ν) :
    (h.write p node).labels = Function.update h.labels p (some node.label) := by
  funext q
  by_cases hq : q = p
  · have hcell : (h.write p node).cells p = some node := by
      show Function.update h.cells p (some node) p = some node
      rw [Function.update_self]
    rw [hq, Function.update_self]
    exact labels_of_cell hcell
  · have hcell : (h.write p node).cells q = h.cells q := by
      show Function.update h.cells p (some node) q = h.cells q
      rw [Function.update_of_ne hq]
    rw [Function.update_of_ne hq]
    exact congrArg (Option.map Node.label) hcell

/-- A change that keeps the label of the block. -/
theorem modify_of_live {f : Node ν → Node ν} (hlabel : ∀ node, (f node).label = node.label)
    (hp : (h.labels p).isSome = true) : ∃ node h', h.cells p = some node ∧ h.modify f (some p) = .ok h' ∧
      Relinked h h' (h.write p (f node)).links := by
  rw [labels, Option.isSome_map] at hp
  obtain ⟨node, hnode⟩ := Option.isSome_iff_exists.mp hp
  refine ⟨node, h.write p (f node), hnode, ?_, rfl, ?_, rfl⟩
  · simp only [modify, hnode, Option.elim_some]
  · rw [write_labels, hlabel, ← labels_of_cell hnode, Function.update_eq_self]

/-- **The three pointer writes** through a pointer to a block in use are those of `SiblingEdits`, and change
    nothing else. -/
theorem setNext_of_live (v : Option Ptr) (hp : (h.labels p).isSome = true) :
    ∃ h', h.setNext (some p) v = .ok h' ∧ Relinked h h' (h.links.setNext (some p) v) := by
  obtain ⟨node, h', hnode, hrun, hr⟩ := modify_of_live (f := fun node => { node with next := v }) (fun _ => rfl) hp
  obtain ⟨-, hprev, hchild⟩ := links_of_cell hnode
  rw [write_links, ← hprev, ← hchild, Function.update_eq_self, Function.update_eq_self] at hr
  exact ⟨h', hrun, hr⟩

theorem setPrev_of_live (v : Option Ptr) (hp : (h.labels p).isSome = true) :
    ∃ h', h.setPrev (some p) v = .ok h' ∧ Relinked h h' (h.links.setPrev (some p) v) := by
  obtain ⟨node, h', hnode, hrun, hr⟩ := modify_of_live (f := fun node => { node with prev := v }) (fun _ => rfl) hp
  obtain ⟨hnext, -, hchild⟩ := links_of_cell hnode
  rw [write_links, ← hnext, ← hchild, Function.update_eq_self, Function.update_eq_self] at hr
  exact ⟨h', hrun, hr⟩

theorem setChild_of_live (v : Option Ptr) (hp : (h.labels p).isSome = true) :
    ∃ h', h.setChild (some p) v = .ok h' ∧ Relinked h h' (h.links.setChild p v) := by
  obtain ⟨node, h', hnode, hrun, hr⟩ := modify_of_live (f := fun node => { node with child := v }) (fun _ => rfl) hp
  obtain ⟨hnext, hprev, -⟩ := links_of_cell hnode
  rw [write_links, ← hnext, ← hprev, Function.update_eq_self, Function.update_eq_self] at hr
  exact ⟨h', hrun, hr⟩

end Heap

/-! ## Loops along the children -/

open Heap

variable {heap heap' : Heap ν} {F : Forest Ptr (Label ν)} {p x y z : Ptr} {before : Option Ptr} {xs ys zs : List Ptr}

/-- **The loop of `add_item_to_array`** comes to the last child. -/
theorem lastSibling_eq {fuel : Nat} (hxs : heap.links.Linked before xs none)
    (hlive : ∀ x ∈ xs, (heap.labels x).isSome = true) (hne : xs ≠ []) (hfuel : xs.length ≤ fuel) :
    lastSibling heap fuel xs.head? = .ok xs.getLast? := by
  induction xs generalizing before fuel with
  | nil => exact absurd rfl hne
  | cons x xs ih =>
      obtain ⟨fuel, rfl⟩ := Nat.exists_eq_add_of_le' (Nat.le_trans (Nat.succ_pos xs.length) hfuel)
      obtain ⟨node, hread, hnext, -⟩ := read_of_live (hlive x List.mem_cons_self)
      rw [List.head?_cons, lastSibling, bind_of_ok hread, hnext, hxs.2.1, Option.or_none]
      cases xs with
      | nil => rfl
      | cons y ys =>
          rw [if_pos (by rfl), List.getLast?_cons_cons]
          exact ih hxs.2.2 (fun z hz => hlive z (List.mem_cons_of_mem x hz)) (List.cons_ne_nil y ys)
            (Nat.le_of_succ_le_succ hfuel)

/-- The first one of the items that `get_object_item` stops at, unless it has no name. -/
def named (caseSensitive : Bool) (name : Str) (label : Ptr → Option (Label ν)) (xs : List Ptr) : Option Ptr :=
  (xs.find? (fun x => isNamed caseSensitive name ((label x).bind Label.string))).bind
    (fun x => if ((label x).bind Label.string).isNone then none else some x)

end CJson
end AstraeaGateway
