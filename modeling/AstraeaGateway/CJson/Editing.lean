import AstraeaGateway.CJson.Holds

/-!
# `CJson.Editing` — the edits of the linked items, one by one
-/

namespace AstraeaGateway
namespace CJson

open Checked Siblings Siblings.Links Heap

variable {ν : Type} {heap heap' : Heap ν} {F : Forest Ptr (Label ν)} {p x y z : Ptr} {xs ys zs : List Ptr}

/-! ## The children of an item -/

theorem Heap.Holds.live (hF : heap.Holds F) (hx : (F.label x).isSome = true) : (heap.labels x).isSome = true := by
  rw [hF.labels]
  exact hx

theorem Heap.Holds.live_children (hF : heap.Holds F) : ∀ x ∈ F.children p, (heap.labels x).isSome = true :=
  fun _ hx => hF.live (F.alive hx)

theorem Heap.Holds.length_children_le (hF : heap.Holds F) (p : Ptr) : (F.children p).length ≤ heap.allocated :=
  hF.count _ (F.nodup p) (fun _ hx => F.alive hx)

/-- The writes of `add_item_to_array`. Of an item that is not in use only the address is needed, if it comes first. -/
theorem addItemToArray_relinks (hF : heap.Holds F) (hp : (F.label p).isSome = true)
    (hx : F.children p = [] ∨ (F.label x).isSome = true) :
    ∃ heap', addItemToArray (some p) (some x) heap = .ok (true, heap') ∧
      Relinked heap heap' (heap.links.append p x (F.children p).getLast?) := by
  unfold Links.append addItemToArray
  obtain ⟨node, hread, -, -, hchild, -⟩ := read_of_live (hF.live hp)
  rw [if_neg (by exact not_or.mpr ⟨Bool.false_ne_true, Bool.false_ne_true⟩), bind_of_ok hread, hchild,
    hF.links.child p]
  by_cases hnil : F.children p = []
  · obtain ⟨heap', hrun, hr⟩ := setChild_of_live (some x) (hF.live hp)
    rw [if_pos (by rw [hnil]; rfl), if_pos (by rw [hnil]; rfl), bind_of_ok hrun]
    exact ⟨heap', rfl, hr⟩
  · obtain ⟨last, hlast⟩ := Option.isSome_iff_exists.mp (List.getLast?_isSome.mpr hnil)
    have hlive := hF.live_children last (List.mem_of_mem_getLast? hlast)
    have hsearch := lastSibling_eq (hF.links.linked p) hF.live_children hnil (hF.length_children_le p)
    rw [hlast] at hsearch ⊢
    obtain ⟨heap₁, hrun₁, hr₁⟩ := setNext_of_live (some x) hlive
    obtain ⟨heap₂, hrun₂, hr₂⟩ := setPrev_of_live (some last) (hr₁.live (hF.live (hx.resolve_left hnil)))
    rw [hr₁.links] at hr₂
    rw [if_neg (by rw [Option.isNone_iff_eq_none, List.head?_eq_none_iff]; exact hnil),
      if_neg (by exact Bool.false_ne_true), bind_of_ok hsearch]
    unfold suffixObject
    rw [bind_of_ok hrun₁, bind_of_ok hrun₂]
    exact ⟨heap₂, rfl, hr₁.trans hr₂⟩

theorem addItemToArray_holds (hF : heap.Holds F) (hfits : F.Fits p (F.children p ++ [x])) :
    ∃ heap', addItemToArray (some p) (some x) heap = .ok (true, heap') ∧
      heap'.Holds (F.withChildren p (F.children p ++ [x]) hfits) := by
  have hx := hfits.alive (List.mem_append_right (F.children p) List.mem_cons_self)
  obtain ⟨heap', hrun, hr⟩ := addItemToArray_relinks hF hfits.parent (Or.inr hx)
  exact ⟨heap', hrun, hF.relinked hr (hF.links.append hfits) rfl⟩

/-- An item behind others has to be in use. -/
theorem addItemToArray_freed (hF : heap.Holds F) (hp : (F.label p).isSome = true) (hne : F.children p ≠ [])
    (hx : F.label x = none) : addItemToArray (some p) (some x) heap = .error .freed := by
  obtain ⟨node, hread, -, -, hchild, -⟩ := read_of_live (hF.live hp)
  obtain ⟨last, hlast⟩ := Option.isSome_iff_exists.mp (List.getLast?_isSome.mpr hne)
  have hsearch := lastSibling_eq (hF.links.linked p) hF.live_children hne (hF.length_children_le p)
  rw [hlast] at hsearch
  obtain ⟨heap₁, hrun₁, hr₁⟩ := setNext_of_live (some x) (hF.live_children last (List.mem_of_mem_getLast? hlast))
  have hfree : heap₁.cells x = none := by
    rw [← hF.labels, ← hr₁.labels, labels, Option.map_eq_none_iff] at hx
    exact hx
  have hsetPrev : heap₁.setPrev (some x) (some last) = .error .freed := by
    unfold Heap.setPrev Heap.modify
    dsimp only
    rw [hfree]
    rfl
  unfold addItemToArray suffixObject
  rw [if_neg (by exact not_or.mpr ⟨Bool.false_ne_true, Bool.false_ne_true⟩), bind_of_ok hread, hchild,
    hF.links.child p, if_neg (by rw [Option.isNone_iff_eq_none, List.head?_eq_none_iff]; exact hne),
    bind_of_ok hsearch, bind_of_ok hrun₁, hsetPrev]
  rfl

/-! ## Deleting -/

end CJson
end AstraeaGateway
