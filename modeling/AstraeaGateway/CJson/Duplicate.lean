import AstraeaGateway.CJson.Edits

/-!
# `CJson.Duplicate` — `cJSON_Duplicate` copies a tree

`malloc` is the sequence of the addresses that it returns. The copy is made from the root down: an item is copied
before its children, and each copied child is linked to its parent before the next one is made. `duplicate_copied`:
what comes out is a tree of its own that reads the same, all new blocks are in it, and nothing else has changed.
-/

namespace AstraeaGateway
namespace CJson

open Checked Siblings Siblings.Links Heap

variable {ν : Type} {malloc : Nat → Ptr} {heap : Heap ν} {F F₀ F' : Forest Ptr (Label ν)} {p q x : Ptr}
  {xs ys ds : List Ptr}

/-! ## The code -/

/-- Create a new item, copy over all vars. -/
def copyItem (newitem : Ptr) (item : Node ν) (h : Heap ν) : Except Fault (Heap ν) :=
  (newItem newitem item.kind h).modify (fun node => { node with string := item.string }) (some newitem)

/-- A child is crosswired with the one that was copied before, or the item is led to it. -/
def linkChild (newitem : Ptr) (next : Option Ptr) (newchild : Ptr) (h : Heap ν) : Except Fault (Heap ν) :=
  if next.isSome then do
    let h ← h.setNext next (some newchild)
    h.setPrev (some newchild) next
  else h.setChild (some newitem) (some newchild)

/-- The loop of `cJSON_Duplicate` over the children, with the call of `cJSON_Duplicate` for each of them. -/
def duplicateChildren (malloc : Nat → Ptr) :
    Nat → Option Ptr → Ptr → Option Ptr → Heap ν → Except Fault (Heap ν)
  | _, none, _, _, h                     => .ok h
  | 0, some _, _, _, _                   => .error .endless
  | fuel + 1, some child, newitem, next, h => do
      let item ← h.read (some child)
      let newchild := malloc h.allocated
      let h ← copyItem newchild item h
      let h ← duplicateChildren malloc fuel item.child newchild none h
      let h ← linkChild newitem next newchild h
      let item ← h.read (some child)
      duplicateChildren malloc fuel item.next newitem (some newchild) h

/-- `cJSON_Duplicate` -/
def duplicate (malloc : Nat → Ptr) (item : Option Ptr) (recurse : Bool) (h : Heap ν) :
    Except Fault (Option Ptr × Heap ν) :=
  if item.isNone then .ok (none, h)
  else do
    let node ← h.read item
    let newitem := malloc h.allocated
    let fuel := h.allocated
    let h ← copyItem newitem node h
    if recurse then
      let h ← duplicateChildren malloc fuel node.child newitem none h
      .ok (some newitem, h)
    else .ok (some newitem, h)

/-! ## One item -/

/-- From the `n`-th call on, `malloc` returns blocks that are not in use, each one once. -/
structure Fresh (malloc : Nat → Ptr) (F : Forest Ptr (Label ν)) (n : Nat) : Prop where
  unused   : ∀ m, n ≤ m → F.label (malloc m) = none
  distinct : ∀ m m', n ≤ m → n ≤ m' → malloc m = malloc m' → m = m'

theorem modify_allocated {heap' : Heap ν} {f : Node ν → Node ν} {v : Option Ptr}
    (h : heap.modify f v = .ok heap') : heap'.allocated = heap.allocated := by
  cases v with
  | none => cases h
  | some p =>
      unfold Heap.modify at h
      dsimp only at h
      cases hcell : heap.cells p with
      | none =>
          rw [hcell] at h
          cases h
      | some node =>
          rw [hcell] at h
          obtain rfl := Except.ok.inj h
          rfl

theorem Fresh.mono {n m : Nat} (h : Fresh malloc F n) (hle : n ≤ m)
    (hlabel : ∀ k, m ≤ k → F'.label (malloc k) = F.label (malloc k)) :
    Fresh malloc F' m where
  unused k hk := (hlabel k hk).trans (h.unused k (Nat.le_trans hle hk))
  distinct k k' hk hk' := h.distinct k k' (Nat.le_trans hle hk) (Nat.le_trans hle hk')

/-- `F₁` is `F` with the item `new`, which has no place yet. -/
structure Added (F F₁ : Forest Ptr (Label ν)) (new : Ptr) (label : Label ν) : Prop where
  unused   : F.label new = none
  labels   : F₁.label = Function.update F.label new (some label)
  children : F₁.children = F.children

section Added

variable {F₁ : Forest Ptr (Label ν)} {label : Label ν} {new : Ptr} (h : Added F F₁ new label)
include h

theorem Added.label_self : F₁.label new = some label := by rw [h.labels, Function.update_self]

theorem Added.no_children : F₁.children new = [] := by rw [h.children, Forest.children_of_free h.unused]

theorem Added.isRoot : F₁.IsRoot new := by
  refine ⟨by rw [h.label_self]; rfl, fun u hu => ?_⟩
  rw [h.children] at hu
  exact Forest.notMem_children_of_free h.unused hu

theorem Added.grown (p : Ptr) : Forest.Grown F F₁ p where
  label q hq := by
    rw [h.labels]
    exact (Forest.grown_withLabel (p := p) (b := label) h.unused).label q hq
  children q _ _ := congrFun h.children q
  parent q y _ hy := by rwa [h.children] at hy

end Added

/-- The copy has the label of the item. -/
theorem copyItem_holds {label : Label ν} {item : Node ν} (hF : heap.Holds F) (hfresh : Fresh malloc F heap.allocated)
    (hlabel : some item.label = some label) :
    ∃ heap' F₁, copyItem (malloc heap.allocated) item heap = .ok heap' ∧ heap'.Holds F₁ ∧
      Added F F₁ (malloc heap.allocated) label ∧ Fresh malloc F₁ heap'.allocated := by
  have hx : F.label (malloc heap.allocated) = none := hfresh.unused _ (Nat.le_refl _)
  have hF₁ := newItem_holds hF hx item.kind
  obtain ⟨heap', hrun, hF'⟩ := rename_holds hF₁ (Function.update_self ..) item.string
  obtain rfl : item.label = label := Option.some.inj hlabel
  have hlabels : ((F.withLabel (malloc heap.allocated) ⟨item.kind, none⟩).withLabel (malloc heap.allocated)
      ⟨item.kind, item.string⟩).label = Function.update F.label (malloc heap.allocated) (some item.label) :=
    Function.update_idem ..
  have hallocated : heap'.allocated = heap.allocated + 1 := modify_allocated hrun
  refine ⟨heap', _, hrun, hF', ⟨hx, hlabels, rfl⟩, ?_⟩
  rw [hallocated]
  refine hfresh.mono (Nat.le_succ _) (fun k hk => ?_)
  have hne : malloc k ≠ malloc heap.allocated := fun hmalloc =>
    Nat.ne_of_gt hk (hfresh.distinct k _ (Nat.le_of_succ_le hk) (Nat.le_refl _) hmalloc)
  rw [hlabels, Function.update_of_ne hne]

theorem linkChild_holds (hF : heap.Holds F) (hfits : F.Fits p (F.children p ++ [x])) :
    ∃ heap', linkChild p (F.children p).getLast? x heap = .ok heap' ∧
      heap'.Holds (F.withChildren p (F.children p ++ [x]) hfits) ∧ heap'.allocated = heap.allocated := by
  have hx := hF.live (hfits.alive (List.mem_append_right (F.children p) List.mem_cons_self))
  have hlinks := hF.links.append hfits
  unfold Links.append at hlinks
  unfold linkChild
  cases hlast : (F.children p).getLast? with
  | none =>
      obtain ⟨heap', hrun, hr⟩ := setChild_of_live (some x) (hF.live hfits.parent)
      rw [hlast] at hlinks
      exact ⟨heap', hrun, hF.relinked hr hlinks rfl, hr.allocated⟩
  | some last =>
      have hlive := hF.live_children last (List.mem_of_mem_getLast? hlast)
      obtain ⟨heap₁, hrun₁, hr₁⟩ := setNext_of_live (some x) hlive
      obtain ⟨heap₂, hrun₂, hr₂⟩ := setPrev_of_live (some last) (hr₁.live hx)
      rw [hr₁.links] at hr₂
      rw [hlast] at hlinks
      rw [if_pos (by rfl), bind_of_ok hrun₁]
      exact ⟨heap₂, hrun₂, hF.relinked (hr₁.trans hr₂) hlinks rfl, hr₂.allocated.trans hr₁.allocated⟩

/-! ## Copies below an item -/

/-- Behind the children that `p` had, `F'` has the copies of the items `xs` of `F₀`, and nothing else is new. -/
structure Copied (F₀ F F' : Forest Ptr (Label ν)) (p : Ptr) (xs copies : List Ptr) : Prop where
  grown    : Forest.Grown F F' p
  children : F'.children p = F.children p ++ copies
  same     : copies.map (treeItem F') = xs.map (treeItem F₀)
  within   : ∀ y, (F'.label y).isSome = true → (F.label y).isSome = true ∨ F'.Within y p

theorem Copied.nil : Copied F₀ F F p [] [] where
  grown := Forest.Grown.refl F p
  children := (List.append_nil _).symm
  same := rfl
  within _ hy := Or.inl hy

/-- Children stay children. -/
theorem Copied.subset {copies : List Ptr} (h : Copied F₀ F F' p xs copies) {y u : Ptr} (hy : y ∈ F.children u) :
    y ∈ F'.children u := by
  by_cases hu : u = p
  · rw [hu] at hy ⊢
    rw [h.children]
    exact List.mem_append_left copies hy
  · rw [h.grown.children u (F.parent hy) hu]
    exact hy

/-- What is below the children of `p` already is not changed. -/
theorem Copied.treeItem_eq {copies : List Ptr} (h : Copied F₀ F F' p xs copies) (hx : x ∈ F.children p) :
    treeItem F' x = treeItem F x := by
  refine Forest.fold_congr _ (fun y hw => ?_)
  have hy := hw.alive (F.alive hx)
  have hne : y ≠ p := by
    rintro rfl
    exact Forest.not_within_child hx hw
  exact ⟨h.grown.label y hy, h.grown.children y hy hne⟩

theorem Copied.trans {F₁ F₂ : Forest Ptr (Label ν)} {copies copies' : List Ptr} (h₁ : Copied F₀ F F₁ p xs copies)
    (h₂ : Copied F₀ F₁ F₂ p ys copies') : Copied F₀ F F₂ p (xs ++ ys) (copies ++ copies') where
  grown := h₁.grown.trans h₂.grown
  children := by rw [h₂.children, h₁.children, List.append_assoc]
  same := by
    have hkept : copies.map (treeItem F₂) = copies.map (treeItem F₁) := by
      refine List.map_congr_left (fun x hx => h₂.treeItem_eq ?_)
      rw [h₁.children]
      exact List.mem_append_right _ hx
    rw [List.map_append, List.map_append, hkept, h₁.same, h₂.same]
  within y hy := by
    rcases h₂.within y hy with hy | hw
    · rcases h₁.within y hy with hy | hw
      · exact Or.inl hy
      · exact Or.inr (hw.mono (fun _ _ hmem => h₂.subset hmem))
    · exact Or.inr hw

theorem Copied.label_new {F₁ F₂ : Forest Ptr (Label ν)} {label : Label ν} {copies : List Ptr} {new : Ptr}
    (h : Copied F₀ F₁ F₂ new xs copies) (hadded : Added F F₁ new label) : F₂.label new = some label := by
  rw [h.grown.label new hadded.isRoot.1, hadded.label_self]

theorem Copied.children_new {F₁ F₂ : Forest Ptr (Label ν)} {label : Label ν} {copies : List Ptr} {new : Ptr}
    (h : Copied F₀ F₁ F₂ new xs copies) (hadded : Added F F₁ new label) : F₂.children new = copies := by
  rw [h.children, hadded.no_children, List.nil_append]

/-- The copy of `x`, with the copies of its children, becomes a child of `p`. -/
theorem Copied.link {F₁ F₂ : Forest Ptr (Label ν)} {label : Label ν} {copies : List Ptr} {new : Ptr}
    (h : Copied F₀ F₁ F₂ new (F₀.children x) copies) (hx : F₀.label x = some label) (hadded : Added F F₁ new label)
    (hp : F.IsRoot p) (hfits : F₂.Fits p (F₂.children p ++ [new])) :
    Copied F₀ F (F₂.withChildren p (F₂.children p ++ [new]) hfits) p [x] [new] := by
  have hne : p ≠ new := by
    rintro rfl
    have hlive := hp.1
    rw [hadded.unused] at hlive
    cases hlive
  have hgrown := hadded.grown new
  have hold : F₂.children p = F.children p := by
    rw [h.grown.children p (hgrown.alive hp.1) hne, hadded.children]
  have hitem : treeItem F₂ new = treeItem F₀ x := by
    rw [CJson.treeItem_eq (h.label_new hadded), CJson.treeItem_eq hx, h.children_new hadded, h.same]
  have hout : ¬ F₂.Within p new := fun hw => hne ((h.grown.isRoot (hgrown.isRoot hp)).within hw)
  have hmem : new ∈ (F₂.withChildren p (F₂.children p ++ [new]) hfits).children p := by
    rw [Forest.withChildren_children, Function.update_self]
    exact List.mem_append_right _ List.mem_cons_self
  have hlinked : treeItem (F₂.withChildren p (F₂.children p ++ [new]) hfits) new = treeItem F₂ new := by
    refine Forest.fold_congr _ (fun y hw => ⟨rfl, ?_⟩)
    have hyp : y ≠ p := fun heq => hout (heq ▸ hw)
    rw [Forest.withChildren_children, Function.update_of_ne hyp]
  refine ⟨((hgrown.trans h.grown).move hadded.unused p).append hadded.unused hfits, ?_, ?_, fun y hy => ?_⟩
  · rw [Forest.withChildren_children, Function.update_self, hold]
  · exact congrArg (fun item => [item]) (hlinked.trans hitem)
  · have hup : ∀ y, F₂.Within y new → (F₂.withChildren p (F₂.children p ++ [new]) hfits).Within y p := by
      intro y hw
      refine Forest.Within.up (hw.mono (fun z u hz => Forest.mem_update.mpr ?_)) hmem
      by_cases hu : u = p
      · exact Or.inl ⟨hu, List.mem_append_left _ (hu ▸ hz)⟩
      · exact Or.inr ⟨hu, hz⟩
    rcases h.within y hy with hy | hw
    · by_cases hyn : y = new
      · exact Or.inr (hup y (hyn ▸ Forest.Within.refl F₂ y))
      · rw [hadded.labels, Function.update_of_ne hyn] at hy
        exact Or.inl hy
    · exact Or.inr (hup y hw)

/-! ## The loop -/

/-- **The loop copies the children that are left**, each with what is below it, behind those copied before. -/
theorem duplicateChildren_copies {fuel : Nat} (h : F₀.Postorder xs ds) (hF : heap.Holds F)
    (hkept : Forest.Grown F₀ F p) (hnew : F₀.label p = none) (hxs : F₀.children q = ys ++ xs) (hp : F.IsRoot p)
    (hfresh : Fresh malloc F heap.allocated) (hfuel : ds.length ≤ fuel) :
    ∃ heap' F' copies, duplicateChildren malloc fuel xs.head? p (F.children p).getLast? heap = .ok heap' ∧
      heap'.Holds F' ∧ Fresh malloc F' heap'.allocated ∧ Copied F₀ F F' p xs copies := by
  induction h generalizing fuel heap F p q ys with
  | nil =>
      refine ⟨heap, F, [], ?_, hF, hfresh, Copied.nil⟩
      cases fuel with
      | zero => rfl
      | succ fuel => rfl
  | @cons x xs ds es hchildren hsiblings ihc ihs =>
      rw [List.length_append, List.length_cons] at hfuel
      obtain ⟨fuel, rfl⟩ := Nat.exists_eq_add_of_le' (show 1 ≤ fuel by omega)
      have hmem : x ∈ F₀.children q := by
        rw [hxs]
        exact List.mem_append_right ys List.mem_cons_self
      have hlive := F₀.alive hmem
      obtain ⟨label, hlabel⟩ := Option.isSome_iff_exists.mp hlive
      have hunlike : ∀ u, (F₀.label u).isSome = true → u ≠ p := by
        rintro u hu rfl
        rw [hnew] at hu
        cases hu
      -- the item is copied
      obtain ⟨node, hread, -, -, hchild, hnode⟩ := read_of_live (hF.live (hkept.alive hlive))
      rw [hF.links.child x, hkept.children x hlive (hunlike x hlive)] at hchild
      rw [hF.labels, hkept.label x hlive, hlabel] at hnode
      obtain ⟨heap₁, F₁, hcopy, hF₁, hadded, hfresh₁⟩ := copyItem_holds hF hfresh hnode
      obtain ⟨new, hmalloc⟩ : ∃ new, malloc heap.allocated = new := ⟨_, rfl⟩
      rw [hmalloc] at hcopy hadded
      -- its children are copied
      obtain ⟨heap₂, F₂, copies, hbelow, hF₂, hfresh₂, hcopied⟩ := ihc hF₁
        ((hkept.move hnew new).trans (hadded.grown new)) (hkept.free hadded.unused) (List.nil_append _).symm hadded.isRoot
        hfresh₁ (show ds.length ≤ fuel by omega)
      rw [hadded.no_children, List.getLast?_nil] at hbelow
      -- the copy is linked
      have hpnew : p ≠ new := by
        rintro rfl
        exact absurd hp.1 (by rw [hadded.unused]; exact Bool.false_ne_true)
      have hpold : F₂.children p = F.children p := by
        rw [hcopied.grown.children p ((hadded.grown p).alive hp.1) hpnew, hadded.children]
      have hproot : F₂.IsRoot p := hcopied.grown.isRoot ((hadded.grown new).isRoot hp)
      have hfits : F₂.Fits p (F₂.children p ++ [new]) :=
        Forest.fits_root (hcopied.grown.isRoot hadded.isRoot) hproot.1 (fun hw => hpnew (hproot.within hw))
      obtain ⟨heap₃, hlink, hF₃, hallocated⟩ := linkChild_holds hF₂ hfits
      have hone := hcopied.link hlabel hadded hp hfits
      rw [hpold] at hlink
      -- the siblings behind it are copied
      have hkept₃ := hkept.trans hone.grown
      obtain ⟨node₃, hread₃, hnext, -⟩ := read_of_live (hF₃.live (hkept₃.alive hlive))
      have hlinked := hF₃.links.linked q
      rw [hkept₃.children q (F₀.parent hmem) (hunlike q (F₀.parent hmem)), hxs] at hlinked
      rw [hlinked.next_split, Option.or_none] at hnext
      obtain ⟨heap₄, F₄, copies', hrest, hF₄, hfresh₄, hcopied'⟩ := ihs hF₃ hkept₃ hnew
        (hxs.trans (List.append_cons ys x xs)) (hone.grown.isRoot hp)
        (hfresh₂.mono (Nat.le_of_eq hallocated.symm) (fun _ _ => rfl)) (show es.length ≤ fuel by omega)
      rw [hone.children, List.getLast?_concat] at hrest
      refine ⟨heap₄, F₄, _, ?_, hF₄, hfresh₄, hone.trans hcopied'⟩
      rw [List.head?_cons, duplicateChildren, bind_of_ok hread, hmalloc]
      dsimp only
      rw [bind_of_ok hcopy, hchild, bind_of_ok hbelow, bind_of_ok hlink, bind_of_ok hread₃, hnext]
      exact hrest

/-! ## `cJSON_Duplicate` -/

/-- `F'` is `F` and a tree of new nodes below `r`, which is nobody's child. -/
structure Apart (F F' : Forest Ptr (Label ν)) (r : Ptr) : Prop where
  root : F'.IsRoot r
  new  : ∀ y, F'.Within y r → F.label y = none
  kept : ∀ y, (F.label y).isSome = true → F'.label y = F.label y ∧ F'.children y = F.children y
  only : ∀ y, (F'.label y).isSome = true → (F.label y).isSome = true ∨ F'.Within y r

theorem Apart.treeItem_eq {r : Ptr} (h : Apart F F' r) (hx : (F.label x).isSome = true) :
    treeItem F' x = treeItem F x := Forest.fold_congr _ (fun y hw => h.kept y (hw.alive hx))

/-- A copy that is linked to nothing stands apart. -/
theorem Copied.apart {F₁ F₂ : Forest Ptr (Label ν)} {label : Label ν} {copies : List Ptr} {new : Ptr}
    (h : Copied F₀ F₁ F₂ new xs copies) (hadded : Added F F₁ new label) : Apart F F₂ new := by
  have hgrown : Forest.Grown F F₂ new := (hadded.grown new).trans h.grown
  refine ⟨h.grown.isRoot hadded.isRoot, fun y hw => hgrown.new hadded.unused hw,
    fun y hy => ⟨hgrown.label y hy, ?_⟩, ?_⟩
  · refine hgrown.children y hy ?_
    rintro rfl
    rw [hadded.unused] at hy
    cases hy
  · intro y hy
    rcases h.within y hy with hy | hw
    · by_cases hyn : y = new
      · exact Or.inr (hyn ▸ Forest.Within.refl F₂ y)
      · rw [hadded.labels, Function.update_of_ne hyn] at hy
        exact Or.inl hy
    · exact Or.inr hw

/-- The item and, if asked for, what is below it are copied. -/
theorem duplicate_holds {label : Label ν} (hF : heap.Holds F) (hx : F.label x = some label)
    (hfresh : Fresh malloc F heap.allocated) (recurse : Bool) :
    ∃ heap' F₁ F' new copies, duplicate malloc (some x) recurse heap = .ok (some new, heap') ∧ heap'.Holds F' ∧
      Added F F₁ new label ∧ Copied F F₁ F' new (if recurse then F.children x else []) copies := by
  have hlive : (F.label x).isSome = true := by rw [hx]; rfl
  obtain ⟨node, hread, -, -, hchild, hnode⟩ := read_of_live (hF.live hlive)
  rw [hF.links.child x] at hchild
  rw [hF.labels, hx] at hnode
  obtain ⟨heap₁, F₁, hcopy, hF₁, hadded, hfresh₁⟩ := copyItem_holds hF hfresh hnode
  unfold duplicate
  rw [if_neg (by exact Bool.false_ne_true), bind_of_ok hread]
  dsimp only
  rw [bind_of_ok hcopy]
  cases recurse with
  | false => exact ⟨heap₁, F₁, F₁, _, [], rfl, hF₁, hadded, Copied.nil⟩
  | true =>
      obtain ⟨ds, hds, -, hcount⟩ := exists_below hF x
      obtain ⟨heap', F', copies, hbelow, hF', -, hcopied⟩ := duplicateChildren_copies hds hF₁ (hadded.grown _)
        hadded.unused (List.nil_append _).symm hadded.isRoot hfresh₁ hcount
      rw [hadded.no_children, List.getLast?_nil] at hbelow
      refine ⟨heap', F₁, F', _, copies, ?_, hF', hadded, hcopied⟩
      rw [if_pos rfl, hchild, bind_of_ok hbelow]

/-- **The copy reads like the item and stands apart from it**: with `recurse` it reads the same, without it like the
    item alone. All new blocks are the copy's, whatever was in use is as it was, and reads as it did. -/
theorem duplicate_copied {label : Label ν} (hF : heap.Holds F) (hx : F.label x = some label)
    (hfresh : Fresh malloc F heap.allocated) (recurse : Bool) :
    ∃ heap' F' new, duplicate malloc (some x) recurse heap = .ok (some new, heap') ∧ heap'.Holds F' ∧
      Apart F F' new ∧ F'.label new = some label ∧
      (recurse = true → readItem (some new) heap' = readItem (some x) heap) ∧
      (recurse = false → readItem (some new) heap' = .ok (label.kind.item [])) ∧
      ∀ y, (F.label y).isSome = true → readItem (some y) heap' = readItem (some y) heap := by
  obtain ⟨heap', F₁, F', new, copies, hrun, hF', hadded, hcopied⟩ := duplicate_holds hF hx hfresh recurse
  have hapart := hcopied.apart hadded
  have hlabel := hcopied.label_new hadded
  have hitem : treeItem F' new
      = (label.string, label.kind.item ((if recurse then F.children x else []).map (treeItem F))) := by
    rw [treeItem_eq hlabel, hcopied.children_new hadded, hcopied.same]
  have hread := readItem_eq hF' hapart.root.1
  rw [hitem] at hread
  refine ⟨heap', F', new, hrun, hF', hapart, hlabel, fun hrec => ?_, fun hrec => ?_, fun y hy => ?_⟩
  · rw [hread, hrec, readItem_eq hF (by rw [hx]; rfl), treeItem_eq hx]
    rfl
  · rw [hread, hrec]
    rfl
  · rw [readItem_eq hF' (by rw [(hapart.kept y hy).1]; exact hy), readItem_eq hF hy, hapart.treeItem_eq hy]

/-- An array with one element. -/
theorem duplicate_copied_array : ∃ (heap : Heap Nat) (F : Forest Ptr (Label Nat)) (heap' : Heap Nat)
    (F' : Forest Ptr (Label Nat)) (new : Ptr), heap.Holds F ∧ F.children 1 = [2] ∧
    duplicate (fun n => n + 3) (some 1) true heap = .ok (some new, heap') ∧ heap'.Holds F' ∧ Apart F F' new ∧
    F'.label new = some ⟨.array, none⟩ ∧ readItem (some new) heap' = readItem (some 1) heap := by
  have hcreated := newItem_holds (newItem_holds empty_holds (x := 1) rfl (Kind.array (ν := Nat))) (x := 2) rfl .null
  have hfits : Forest.Fits _ 1 [2] :=
    Forest.fits_new (F := (Forest.empty Ptr (Label Nat)).withLabel 1 ⟨.array, none⟩) (b := ⟨.null, none⟩) rfl rfl
  obtain ⟨heap, -, hF⟩ := addItemToArray_holds hcreated hfits
  have hfresh : Fresh (fun n => n + 3) (Forest.withChildren _ 1 [2] hfits) heap.allocated := by
    refine ⟨fun m _ => ?_, fun m m' _ _ heq => Nat.add_right_cancel heq⟩
    have hne : m + 3 ≠ 2 ∧ m + 3 ≠ 1 := by omega
    rw [Forest.withChildren_label, Forest.withLabel_label, Function.update_of_ne hne.1, Forest.withLabel_label,
      Function.update_of_ne hne.2]
    rfl
  obtain ⟨heap', F', new, hrun, hF', hapart, hlabel, hread, -⟩ := duplicate_copied hF (x := 1) rfl hfresh true
  exact ⟨heap, _, heap', F', new, hF, rfl, hrun, hF', hapart, hlabel, hread rfl⟩

end CJson
end AstraeaGateway
