import AstraeaGateway.CJson.Edits
import AstraeaGateway.CJson.Posted

/-!
# `CJson.PostTree` — the object that `restCallPostJsonAsync` builds

`restCallPostJsonAsync` creates an object and adds one string to it for each parameter. Whatever else is in use, the
pointers of the object lead to the item that `CJson.Posted` prints, and the rest of the heap is as it was. The
object is never deleted: every call leaves one block for each parameter and one more.
-/

namespace AstraeaGateway
namespace CJson

open Checked Siblings Heap Http

variable {ν : Type} {heap : Heap ν} {F : Forest Ptr (Label ν)} {p x y root : Ptr} {name value : Str}
  {strings : List (Ptr × Str × Str)}

/-- `for (auto const& x : params) cJSON_AddStringToObject(root, x.first.c_str(), x.second.c_str());`, with the
    addresses that `malloc` returns for the items. -/
def addStrings (root : Ptr) : List (Ptr × Str × Str) → Heap ν → Except Fault (Heap ν)
  | [], h                            => .ok h
  | (x, name, value) :: strings, h => do
      let (_, h) ← addStringToObject x (some root) name value h
      addStrings root strings h

/-- The object of `restCallPostJsonAsync`. -/
def buildObject (root : Ptr) (strings : List (Ptr × Str × Str)) (h : Heap ν) : Except Fault (Heap ν) :=
  addStrings root strings (newItem root .object h)

/-! ## The loop -/

/-- One string more. -/
theorem addStringToObject_holds (name value : Str) (hF : heap.Holds F) (hx : F.label x = none)
    (hp : (F.label p).isSome = true) :
    ∃ heap' F', addStringToObject x (some p) name value heap = .ok (some x, heap') ∧ heap'.Holds F' ∧
      F'.label = Function.update F.label x (some ⟨.string (cStr value), some (cStr name)⟩) ∧
      F'.children = Function.update F.children p (F.children p ++ [x]) := by
  have hF₁ := newItem_holds hF hx (.string (cStr value))
  have hlabel : (F.withLabel x ⟨.string (cStr value), none⟩).label x = some ⟨.string (cStr value), none⟩ :=
    Function.update_self ..
  have hfits : (F.withLabel x ⟨.string (cStr value), none⟩).Fits p (F.children p ++ [x]) := Forest.fits_new hx hp
  obtain ⟨heap', hrun, hF'⟩ := addItemToObject_holds hF₁ hlabel hfits.withLabel
  refine ⟨heap', _, ?_, hF', ?_, rfl⟩
  · unfold addStringToObject
    rw [bind_of_ok hrun]
    rfl
  · show Function.update (Function.update F.label x (some ⟨.string (cStr value), none⟩)) x
      (some ⟨.string (cStr value), some (cStr name)⟩) = _
    rw [Function.update_idem]

theorem addStrings_holds (hF : heap.Holds F) (hroot : (F.label root).isSome = true)
    (hnodup : (strings.map Prod.fst).Nodup) (hfree : ∀ s ∈ strings, F.label s.1 = none) :
    ∃ heap' F', addStrings root strings heap = .ok heap' ∧ heap'.Holds F' ∧
      F'.children = Function.update F.children root (F.children root ++ strings.map Prod.fst) ∧
      (∀ q, q ∉ strings.map Prod.fst → F'.label q = F.label q) ∧
      ∀ s ∈ strings, F'.label s.1 = some ⟨.string (cStr s.2.2), some (cStr s.2.1)⟩ := by
  induction strings generalizing heap F with
  | nil =>
      refine ⟨heap, F, rfl, hF, ?_, fun _ _ => rfl, fun _ hs => absurd hs List.not_mem_nil⟩
      rw [List.map_nil, List.append_nil, Function.update_eq_self]
  | cons s strings ih =>
      obtain ⟨x, name, value⟩ := s
      rw [List.map_cons, List.nodup_cons] at hnodup
      have hx : F.label x = none := hfree _ List.mem_cons_self
      obtain ⟨heap₁, F₁, hrun₁, hF₁, hlabel₁, hchildren₁⟩ := addStringToObject_holds name value hF hx hroot
      have hkept : ∀ q, q ≠ x → F₁.label q = F.label q := by
        intro q hq
        rw [hlabel₁, Function.update_of_ne hq]
      have hrootx : root ≠ x := by
        rintro rfl
        rw [hx] at hroot
        cases hroot
      have hfree₁ : ∀ s ∈ strings, F₁.label s.1 = none := by
        intro s hs
        have hmem : s.1 ∈ strings.map Prod.fst := List.mem_map_of_mem hs
        have hsx : s.1 ≠ x := fun heq => hnodup.1 (heq ▸ hmem)
        rw [hkept s.1 hsx]
        exact hfree s (List.mem_cons_of_mem _ hs)
      obtain ⟨heap', F', hrun, hF', hchildren, hothers, hstrings⟩ :=
        ih hF₁ (by rw [hkept root hrootx]; exact hroot) hnodup.2 hfree₁
      refine ⟨heap', F', ?_, hF', ?_, fun q hq => ?_, fun s hs => ?_⟩
      · rw [addStrings, bind_of_ok hrun₁]
        exact hrun
      · rw [hchildren, hchildren₁, Function.update_self, Function.update_idem, List.map_cons, List.append_assoc]
        rfl
      · rw [List.map_cons, List.mem_cons, not_or] at hq
        rw [hothers q hq.2, hkept q hq.1]
      · obtain rfl | hs := List.mem_cons.mp hs
        · rw [hothers x hnodup.1, hlabel₁, Function.update_self]
        · exact hstrings s hs

/-- The forest of the heap afterwards: the new tree, and everything else as it was. -/
structure Built (F F' : Forest Ptr (Label ν)) (root : Ptr) (strings : List (Ptr × Str × Str)) : Prop where
  object : F'.label root = some ⟨.object, none⟩
  added  : F'.children root = strings.map Prod.fst
  values : ∀ s ∈ strings, F'.label s.1 = some ⟨.string (cStr s.2.2), some (cStr s.2.1)⟩
  others : ∀ q, q ≠ root → q ∉ strings.map Prod.fst → F'.label q = F.label q ∧ F'.children q = F.children q

theorem buildObject_holds (strings : List (Ptr × Str × Str)) (hF : heap.Holds F)
    (hnodup : (root :: strings.map Prod.fst).Nodup) (hroot : F.label root = none)
    (hfree : ∀ s ∈ strings, F.label s.1 = none) :
    ∃ heap' F', buildObject root strings heap = .ok heap' ∧ heap'.Holds F' ∧ Built F F' root strings := by
  obtain ⟨hout, hnd⟩ := List.nodup_cons.mp hnodup
  have hF₁ := newItem_holds hF hroot .object
  have hlabel : (F.withLabel root ⟨.object, none⟩).label root = some ⟨.object, none⟩ := Function.update_self ..
  have hfree₁ : ∀ s ∈ strings, (F.withLabel root ⟨.object, none⟩).label s.1 = none := by
    intro s hs
    have hne : s.1 ≠ root := by
      rintro rfl
      exact hout (List.mem_map_of_mem hs)
    rw [Forest.withLabel_label, Function.update_of_ne hne]
    exact hfree s hs
  obtain ⟨heap', F', hrun, hF', hchildren, hothers, hstrings⟩ :=
    addStrings_holds hF₁ (by rw [hlabel]; rfl) hnd hfree₁
  refine ⟨heap', F', hrun, hF', ?_, ?_, hstrings, fun q hq hqs => ⟨?_, ?_⟩⟩
  · rw [hothers root hout, hlabel]
  · rw [hchildren, Function.update_self, Forest.withLabel_children, Forest.children_of_free hroot, List.nil_append]
  · rw [hothers q hqs, Forest.withLabel_label, Function.update_of_ne hq]
  · rw [hchildren, Function.update_of_ne hq, Forest.withLabel_children]

theorem Built.treeItem {F' : Forest Ptr (Label ν)} (h : Built F F' root strings) :
    treeItem F' root = (none, stringsItem (strings.map (fun s => (cStr s.2.1, cStr s.2.2)))) := by
  have hchildren : (strings.map Prod.fst).map (CJson.treeItem F')
      = strings.map (fun s => (some (cStr s.2.1), .string (cStr s.2.2))) := by
    rw [List.map_map]
    exact List.map_congr_left (fun s hs => treeItem_eq (h.values s hs))
  rw [treeItem_eq h.object, h.added, hchildren]
  show (none, Item.object _) = (none, Item.object _)
  rw [List.map_map, List.map_map]
  rfl

/-! ## The posted body -/

/-- **The body that the gateway posts is the print of the tree that it builds**, in any heap and wherever `malloc`
    puts the items. The rest of the heap is as it was, and the tree is in use afterwards. -/
theorem built_posted (libc : Libc ν) (params : StrMap) {addresses : List Ptr} (hF : heap.Holds F)
    (hlength : addresses.length = params.entries.length) (hnodup : (root :: addresses).Nodup)
    (hfree : ∀ x ∈ root :: addresses, F.label x = none) :
    ∃ heap' F' item, buildObject root (addresses.zip params.entries) heap = .ok heap' ∧ heap'.Holds F' ∧
      Built F F' root (addresses.zip params.entries) ∧ readItem (some root) heap' = .ok item ∧
      (print libc false item).toOption.map (fun json => postBody json (cStr json).length) = gatewayBody params := by
  have haddresses : (addresses.zip params.entries).map Prod.fst = addresses :=
    List.map_fst_zip (Nat.le_of_eq hlength)
  have hentries : (addresses.zip params.entries).map Prod.snd = params.entries :=
    List.map_snd_zip (Nat.le_of_eq hlength.symm)
  obtain ⟨heap', F', hrun, hF', hbuilt⟩ := buildObject_holds (addresses.zip params.entries) hF
    (by rw [haddresses]; exact hnodup) (hfree root List.mem_cons_self)
    (fun s hs => hfree s.1 (List.mem_cons_of_mem root (haddresses ▸ List.mem_map_of_mem hs)))
  have hpairs : (addresses.zip params.entries).map (fun s => (cStr s.2.1, cStr s.2.2)) = items params := by
    have hmap := congrArg (List.map (fun x : Str × Str => (cStr x.1, cStr x.2))) hentries
    rw [List.map_map] at hmap
    exact hmap
  have hitem : treeItem F' root = (none, stringsItem (items params)) := by rw [hbuilt.treeItem, hpairs]
  refine ⟨heap', F', stringsItem (items params), hrun, hF', hbuilt, ?_, ?_⟩
  · rw [readItem_eq hF' (by rw [hbuilt.object]; rfl), hitem]
  · rw [print_strings]
    rfl

/-- The two parameters of a read request, in an empty heap. -/
theorem built_posted_read : ∃ heap' F' item,
    buildObject 4 ([7, 5].zip readParams.entries) (Heap.empty Nat) = .ok heap' ∧ heap'.Holds F' ∧
    Built (Forest.empty Ptr (Label Nat)) F' 4 ([7, 5].zip readParams.entries) ∧ readItem (some 4) heap' = .ok item ∧
    (print Libc.naturals false item).toOption.map (fun json => postBody json (cStr json).length)
      = gatewayBody readParams :=
  built_posted Libc.naturals readParams empty_holds (by decide) (by decide) (fun _ _ => rfl)

end CJson
end AstraeaGateway
