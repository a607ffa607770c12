import AstraeaGateway.Siblings
import Mathlib.Logic.Relation
import Mathlib.Order.WellFounded

/-!
# `Forest` — trees of nodes that are owned once

A `Forest` gives every live node a label and the list of its children; a node is the child of one node at most,
once, and no node lies in its own tree. `Represents L F`: the links `L` are those of the forest `F`. All editing is
one operation on the forest, `withChildren`, which gives a node new children and asks of them what keeps the
forest one; `Represents.withChildren` says which links have to be right for it.
-/

namespace Siblings

structure Forest (α β : Type) where
  label    : α → Option β
  children : α → List α
  nodup    : ∀ p, (children p).Nodup
  only     : ∀ {p q x}, x ∈ children p → x ∈ children q → p = q
  parent   : ∀ {p x}, x ∈ children p → (label p).isSome = true
  alive    : ∀ {p x}, x ∈ children p → (label x).isSome = true
  grounded : WellFounded (fun x p => x ∈ children p)

namespace Forest

variable {α β : Type} {F : Forest α β} {p q r x y : α} {xs ys ds es : List α} {b : β}

def empty (α β : Type) : Forest α β where
  label _ := none
  children _ := []
  nodup _ := List.nodup_nil
  only h := absurd h List.not_mem_nil
  parent h := absurd h List.not_mem_nil
  alive h := absurd h List.not_mem_nil
  grounded := ⟨fun _ => ⟨_, fun _ h => absurd h List.not_mem_nil⟩⟩

/-- A live node that is nobody's child. -/
def IsRoot (F : Forest α β) (x : α) : Prop := (F.label x).isSome = true ∧ ∀ p, x ∉ F.children p

/-- `y` lies in the tree below `x`; `x` does too. -/
def Within (F : Forest α β) (y x : α) : Prop := Relation.ReflTransGen (fun y p => y ∈ F.children p) y x

theorem Within.refl (F : Forest α β) (x : α) : F.Within x x := Relation.ReflTransGen.refl

theorem Within.child (h : y ∈ F.children p) (hp : F.Within p x) : F.Within y x := Relation.ReflTransGen.head h hp

theorem Within.up (h : F.Within y x) (hx : x ∈ F.children p) : F.Within y p := Relation.ReflTransGen.tail h hx

/-- More children, more below. -/
theorem Within.mono {F' : Forest α β} (hsub : ∀ y p, y ∈ F.children p → y ∈ F'.children p) (h : F.Within y x) :
    F'.Within y x := Relation.ReflTransGen.mono (fun y p hy => hsub y p hy) y x h

/-- A node of a tree other than its root is the child of another one. -/
theorem Within.cases (h : F.Within y x) : y = x ∨ ∃ p, y ∈ F.children p ∧ F.Within p x :=
  Relation.ReflTransGen.cases_head h

/-- Below a node stand nodes. -/
theorem Within.alive (h : F.Within y x) (hx : (F.label x).isSome = true) : (F.label y).isSome = true := by
  obtain rfl | ⟨p, hp, -⟩ := h.cases
  · exact hx
  · exact F.alive hp

/-- No node lies below its own child. -/
theorem not_within_child (hx : x ∈ F.children p) : ¬ F.Within p x := by
  intro h
  have hcycle : Relation.TransGen (fun y p => y ∈ F.children p) p p := Relation.TransGen.tail' h hx
  exact F.grounded.transGen.irrefl.irrefl p hcycle

/-- Two children of one node are not below each other. -/
theorem not_within_sibling (hx : x ∈ F.children p) (hy : y ∈ F.children p) (hne : x ≠ y) : ¬ F.Within x y := by
  intro h
  obtain heq | ⟨q, hq, hwithin⟩ := h.cases
  · exact hne heq
  · rw [F.only hq hx] at hwithin
    exact not_within_child hy hwithin

/-- The trees of siblings have no node in common. -/
theorem within_sibling (hx : x ∈ F.children p) (hy : y ∈ F.children p) (hne : x ≠ y) (h : F.Within r x) :
    ¬ F.Within r y := by
  intro hr
  have hunique : Relator.RightUnique (fun y p => y ∈ F.children p) := fun _ _ _ h h' => F.only h h'
  rcases Relation.ReflTransGen.total_of_right_unique hunique h hr with hxy | hyx
  · exact not_within_sibling hx hy hne hxy
  · exact not_within_sibling hy hx (Ne.symm hne) hyx

/-- A root is below itself only. -/
theorem IsRoot.within (h : F.IsRoot x) (hw : F.Within x y) : x = y := by
  obtain heq | ⟨p, hp, -⟩ := hw.cases
  · exact heq
  · exact absurd hp (h.2 p)

/-! ## Removing a tree -/

open Classical in
/-- The forest without the tree of a root. -/
noncomputable def fell (F : Forest α β) (x : α) (h : F.IsRoot x) : Forest α β where
  label y := if F.Within y x then none else F.label y
  children y := if F.Within y x then [] else F.children y
  nodup p := by
    split
    · exact List.nodup_nil
    · exact F.nodup p
  only {p q y} hp hq := by
    split at hp
    · exact absurd hp List.not_mem_nil
    · split at hq
      · exact absurd hq List.not_mem_nil
      · exact F.only hp hq
  parent {p y} hy := by
    split at hy
    · exact absurd hy List.not_mem_nil
    · rw [if_neg ‹_›]
      exact F.parent hy
  alive {p y} hy := by
    split at hy
    · exact absurd hy List.not_mem_nil
    · rename_i hp
      rw [if_neg]
      · exact F.alive hy
      · intro hw
        obtain rfl | ⟨q, hq, hqx⟩ := hw.cases
        · exact h.2 p hy
        · rw [F.only hq hy] at hqx
          exact hp hqx
  grounded := by
    refine Subrelation.wf ?_ F.grounded
    intro y p hy
    split at hy
    · exact absurd hy List.not_mem_nil
    · exact hy

open Classical in
theorem fell_children (h : F.IsRoot x) :
    (F.fell x h).children y = if F.Within y x then [] else F.children y := rfl

/-- The nodes of the trees of the siblings `xs`, each one behind its children and before its next siblings. -/
inductive Postorder (F : Forest α β) : List α → List α → Prop
  | nil : Postorder F [] []
  | cons {x : α} {xs ds es : List α} :
      Postorder F (F.children x) ds → Postorder F xs es → Postorder F (x :: xs) (ds ++ x :: es)

theorem exists_postorder_of (h : ∀ x ∈ xs, ∃ ds, F.Postorder (F.children x) ds) : ∃ ds, F.Postorder xs ds := by
  induction xs with
  | nil => exact ⟨[], Postorder.nil⟩
  | cons x xs ih =>
      obtain ⟨ds, hds⟩ := h x List.mem_cons_self
      obtain ⟨es, hes⟩ := ih (fun y hy => h y (List.mem_cons_of_mem x hy))
      exact ⟨ds ++ x :: es, Postorder.cons hds hes⟩

/-- **Every list of nodes has a postorder** of what is below it. -/
theorem exists_postorder (F : Forest α β) (xs : List α) : ∃ ds, F.Postorder xs ds := by
  refine exists_postorder_of (fun x hx => ?_)
  clear hx
  induction F.grounded.apply x with
  | intro x _ ih => exact exists_postorder_of (fun y hy => ih y hy)

/-- A postorder lists what is below. -/
theorem Postorder.mem (h : F.Postorder xs ds) : y ∈ ds ↔ ∃ x ∈ xs, F.Within y x := by
  induction h with
  | nil => simp only [List.not_mem_nil, false_and, exists_false]
  | @cons x xs ds es _ _ ihc ihs =>
      rw [List.mem_append, List.mem_cons, ihc, ihs]
      constructor
      · rintro (⟨z, hz, hw⟩ | rfl | ⟨z, hz, hw⟩)
        · exact ⟨x, List.mem_cons_self, hw.tail hz⟩
        · exact ⟨y, List.mem_cons_self, Within.refl F y⟩
        · exact ⟨z, List.mem_cons_of_mem x hz, hw⟩
      · rintro ⟨z, hz, hw⟩
        obtain rfl | hz := List.mem_cons.mp hz
        · rcases Relation.ReflTransGen.cases_tail hw with rfl | ⟨u, hu, huz⟩
          · exact Or.inr (Or.inl rfl)
          · exact Or.inl ⟨u, huz, hu⟩
        · exact Or.inr (Or.inr ⟨z, hz, hw⟩)

/-- No node comes twice, if no node is in two of the trees. -/
theorem Postorder.nodup (h : F.Postorder xs ds) (hnodup : xs.Nodup)
    (hdisj : ∀ x ∈ xs, ∀ y ∈ xs, x ≠ y → ∀ r, F.Within r x → ¬ F.Within r y) : ds.Nodup := by
  induction h with
  | nil => exact List.nodup_nil
  | @cons x xs ds es hc hs ihc ihs =>
      obtain ⟨hx, hxs⟩ := List.nodup_cons.mp hnodup
      have hne : ∀ y ∈ xs, x ≠ y := fun y hy heq => hx (heq ▸ hy)
      have hsep : ∀ r, F.Within r x → r ∉ es := by
        intro r hr hmem
        obtain ⟨z, hz, hw⟩ := hs.mem.mp hmem
        exact hdisj x List.mem_cons_self z (List.mem_cons_of_mem x hz) (hne z hz) r hr hw
      have hds : ds.Nodup := ihc (F.nodup x) (fun _ hy _ hz hyz _ hr => within_sibling hy hz hyz hr)
      have hes : es.Nodup := ihs hxs (fun y hy z hz =>
        hdisj y (List.mem_cons_of_mem x hy) z (List.mem_cons_of_mem x hz))
      refine List.nodup_append.mpr ⟨hds, List.nodup_cons.mpr ⟨hsep x (Within.refl F x), hes⟩, ?_⟩
      intro r hr s hs' heq
      obtain ⟨z, hz, hw⟩ := hc.mem.mp hr
      rw [← heq] at hs'
      obtain rfl | hmem := List.mem_cons.mp hs'
      · exact not_within_child hz hw
      · exact hsep r (hw.tail hz) hmem

/-- What `build` makes of the tree below `x`, from the leaves up. -/
noncomputable def fold {γ : Type} (F : Forest α β) (build : Option β → List γ → γ) (x : α) : γ :=
  F.grounded.fix (fun x below => build (F.label x) ((F.children x).attach.map (fun y => below y.1 y.2))) x

/-- The equation of a fold. -/
theorem fold_eq {γ : Type} (build : Option β → List γ → γ) (x : α) :
    F.fold build x = build (F.label x) ((F.children x).map (F.fold build)) := by
  rw [fold, WellFounded.fix_eq]
  exact congrArg (build (F.label x)) (List.attach_map_val)

/-- What is built depends on the tree only. -/
theorem fold_congr {γ : Type} {F' : Forest α β} (build : Option β → List γ → γ)
    (hsame : ∀ y, F.Within y x → F'.label y = F.label y ∧ F'.children y = F.children y) :
    F'.fold build x = F.fold build x := by
  induction F.grounded.apply x with
  | intro x _ ih =>
      obtain ⟨hlabel, hchildren⟩ := hsame x (Within.refl F x)
      rw [fold_eq, fold_eq, hlabel, hchildren]
      refine congrArg (build (F.label x)) (List.map_congr_left (fun y hy => ih y hy (fun z hz => ?_)))
      exact hsame z (hz.up hy)

/-! ## New nodes -/

/-- `F'` is `F` with new nodes; of the old ones only `p` has children that it had not. -/
structure Grown (F F' : Forest α β) (p : α) : Prop where
  label    : ∀ q, (F.label q).isSome = true → F'.label q = F.label q
  children : ∀ q, (F.label q).isSome = true → q ≠ p → F'.children q = F.children q
  parent   : ∀ q x, (F.label x).isSome = true → x ∈ F'.children q → x ∈ F.children q

variable {F₁ F₂ : Forest α β}

theorem Grown.alive (h : Grown F F₁ p) (hq : (F.label q).isSome = true) : (F₁.label q).isSome = true := by
  rw [h.label q hq]
  exact hq

theorem Grown.free (h : Grown F F₁ p) (hq : F₁.label q = none) : F.label q = none := by
  by_contra hne
  rw [h.label q (Option.isSome_iff_ne_none.mpr hne)] at hq
  exact hne hq

theorem Grown.refl (F : Forest α β) (p : α) : Grown F F p :=
  ⟨fun _ _ => rfl, fun _ _ _ => rfl, fun _ _ _ hx => hx⟩

/-- A forest that grows below a node can go on growing there. -/
theorem Grown.trans (h₁ : Grown F F₁ p) (h₂ : Grown F₁ F₂ p) : Grown F F₂ p where
  label q hq := (h₂.label q (h₁.alive hq)).trans (h₁.label q hq)
  children q hq hne := (h₂.children q (h₁.alive hq) hne).trans (h₁.children q hq hne)
  parent q x hx hmem := h₁.parent q x hx (h₂.parent q x (h₁.alive hx) hmem)

/-- Below a node that is new itself, it does not matter where. -/
theorem Grown.move (h : Grown F F₁ p) (hp : F.label p = none) (r : α) : Grown F F₁ r where
  label := h.label
  children q hq _ := by
    refine h.children q hq ?_
    rintro rfl
    rw [hp] at hq
    cases hq
  parent := h.parent

/-- It keeps its roots. -/
theorem Grown.isRoot (h : Grown F F₁ p) (hx : F.IsRoot x) : F₁.IsRoot x :=
  ⟨h.alive hx.1, fun q hq => hx.2 q (h.parent q x hx.1 hq)⟩

/-- The tree of a new root has no old nodes. -/
theorem Grown.new (h : Grown F F₁ p) (hx : F.label x = none) (hw : F₁.Within y x) : F.label y = none := by
  by_contra hy
  have hlive := Option.isSome_iff_ne_none.mpr hy
  clear hy
  induction hw using Relation.ReflTransGen.head_induction_on with
  | refl =>
      rw [hx] at hlive
      cases hlive
  | head hmem _ ih => exact ih (F.parent (h.parent _ _ hlive hmem))

/-! ## New children -/

variable [DecidableEq α]

/-- `p` can be given the children `xs`: those it does not have yet are roots, of trees that `p` is not in. -/
structure Fits (F : Forest α β) (p : α) (xs : List α) : Prop where
  nodup  : xs.Nodup
  parent : (F.label p).isSome = true
  new    : ∀ x ∈ xs, x ∉ F.children p → F.IsRoot x ∧ ¬ F.Within p x

/-- A list that fits takes no child away from another node. -/
theorem Fits.only (h : F.Fits p xs) (hx : x ∈ xs) (hq : x ∈ F.children q) : q = p := by
  by_cases hp : x ∈ F.children p
  · exact F.only hq hp
  · exact absurd hq ((h.new x hx hp).1.2 q)

theorem Fits.alive (h : F.Fits p xs) (hx : x ∈ xs) : (F.label x).isSome = true := by
  by_cases hp : x ∈ F.children p
  · exact F.alive hp
  · exact (h.new x hx hp).1.1

/-- `p` is in none of the trees of its new children. -/
theorem Fits.not_within (h : F.Fits p xs) (hx : x ∈ xs) : ¬ F.Within p x := by
  by_cases hp : x ∈ F.children p
  · exact not_within_child hp
  · exact (h.new x hx hp).2

theorem mem_update : x ∈ Function.update F.children p xs q ↔ q = p ∧ x ∈ xs ∨ q ≠ p ∧ x ∈ F.children q := by
  by_cases hq : q = p
  · subst hq
    simp only [Function.update_self, true_and, ne_eq, not_true_eq_false, false_and, or_false]
  · simp only [Function.update_of_ne hq, hq, false_and, ne_eq, not_false_eq_true, true_and, false_or]

/-- A tree without `p` is as deep as it was. -/
theorem acc_update (h : ¬ F.Within p q) : Acc (fun x q => x ∈ Function.update F.children p xs q) q := by
  induction F.grounded.apply q with
  | intro q _ ih =>
      refine Acc.intro q (fun y hy => ?_)
      rcases mem_update.mp hy with ⟨rfl, -⟩ | ⟨-, hy⟩
      · exact absurd (Within.refl F q) h
      · exact ih y hy (fun hw => h (hw.up hy))

/-- A list that fits closes no circle. -/
theorem Fits.grounded (h : F.Fits p xs) : WellFounded (fun x q => x ∈ Function.update F.children p xs q) := by
  have hp : Acc (fun x q => x ∈ Function.update F.children p xs q) p := by
    refine Acc.intro p (fun y hy => ?_)
    rw [Function.update_self] at hy
    exact acc_update (h.not_within hy)
  refine ⟨fun q => ?_⟩
  induction F.grounded.apply q with
  | intro q _ ih =>
      refine Acc.intro q (fun y hy => ?_)
      rcases mem_update.mp hy with ⟨rfl, -⟩ | ⟨-, hy'⟩
      · exact hp.inv hy
      · exact ih y hy'

/-- The forest in which the children of `p` are `xs`; those it had before become roots. -/
def withChildren (F : Forest α β) (p : α) (xs : List α) (h : F.Fits p xs) : Forest α β where
  label := F.label
  children := Function.update F.children p xs
  nodup q := by
    by_cases hq : q = p
    · rw [hq, Function.update_self]
      exact h.nodup
    · rw [Function.update_of_ne hq]
      exact F.nodup q
  only {q r x} hq hr := by
    rcases mem_update.mp hq with ⟨rfl, hx⟩ | ⟨hne, hx⟩ <;> rcases mem_update.mp hr with ⟨rfl, hy⟩ | ⟨hne', hy⟩
    · rfl
    · exact absurd (h.only hx hy) hne'
    · exact absurd (h.only hy hx) hne
    · exact F.only hx hy
  parent {q x} hq := by
    rcases mem_update.mp hq with ⟨rfl, -⟩ | ⟨-, hx⟩
    · exact h.parent
    · exact F.parent hx
  alive {q x} hq := by
    rcases mem_update.mp hq with ⟨rfl, hx⟩ | ⟨-, hx⟩
    · exact h.alive hx
    · exact F.alive hx
  grounded := h.grounded

@[simp] theorem withChildren_label (h : F.Fits p xs) : (F.withChildren p xs h).label = F.label := rfl

theorem withChildren_children (h : F.Fits p xs) :
    (F.withChildren p xs h).children = Function.update F.children p xs := rfl

/-! ## Labels -/

/-- `x` gets the label `b`; it is a new node if it had none. -/
def withLabel (F : Forest α β) (x : α) (b : β) : Forest α β where
  label := Function.update F.label x (some b)
  children := F.children
  nodup := F.nodup
  only := F.only
  parent {p y} hy := by
    by_cases hp : p = x
    · rw [hp, Function.update_self]
      rfl
    · rw [Function.update_of_ne hp]
      exact F.parent hy
  alive {p y} hy := by
    by_cases hyx : y = x
    · rw [hyx, Function.update_self]
      rfl
    · rw [Function.update_of_ne hyx]
      exact F.alive hy
  grounded := F.grounded

@[simp] theorem withLabel_children : (F.withLabel x b).children = F.children := rfl

@[simp] theorem withLabel_label : (F.withLabel x b).label = Function.update F.label x (some b) := rfl

theorem withLabel_within : (F.withLabel x b).Within p q ↔ F.Within p q := Iff.rfl

/-- A label changes no child. -/
theorem IsRoot.withLabel (h : F.IsRoot y) : (F.withLabel x b).IsRoot y := by
  refine ⟨?_, h.2⟩
  by_cases hyx : y = x
  · rw [hyx, withLabel_label, Function.update_self]
    rfl
  · rw [withLabel_label, Function.update_of_ne hyx]
    exact h.1

theorem Fits.withLabel (h : F.Fits p xs) : (F.withLabel x b).Fits p xs where
  nodup := h.nodup
  parent := by
    by_cases hp : p = x
    · rw [hp, withLabel_label, Function.update_self]
      rfl
    · rw [withLabel_label, Function.update_of_ne hp]
      exact h.parent
  new y hy hne := ⟨(h.new y hy hne).1.withLabel, (h.new y hy hne).2⟩

theorem grown_withLabel (hx : F.label x = none) : Grown F (F.withLabel x b) p where
  label q hq := by
    have hqx : q ≠ x := by
      rintro rfl
      rw [hx] at hq
      cases hq
    rw [withLabel_label, Function.update_of_ne hqx]
  children _ _ _ := rfl
  parent _ _ _ hmem := hmem

/-- A new node becomes a child. -/
theorem Grown.append {F₁ : Forest α β} (h : Grown F F₁ p) (hx : F.label x = none)
    (hfits : F₁.Fits p (F₁.children p ++ [x])) : Grown F (F₁.withChildren p (F₁.children p ++ [x]) hfits) p where
  label := h.label
  children q hq hne := by
    rw [withChildren_children, Function.update_of_ne hne]
    exact h.children q hq hne
  parent q y hy hmem := by
    refine h.parent q y hy ?_
    rcases mem_update.mp hmem with ⟨rfl, hmem⟩ | ⟨-, hmem⟩
    · obtain hmem | hmem := List.mem_append.mp hmem
      · exact hmem
      · obtain rfl := List.mem_singleton.mp hmem
        rw [hx] at hy
        cases hy
    · exact hmem

end Forest

/-! ## The links of a forest -/

open Links

variable {α β : Type} {L L' : Links α} {F : Forest α β} {p x y : α} {xs ys zs : List α} {b : β}

/-- The links are those of the forest: every node leads to its first child, its children are linked in order, and
    a node that is nobody's child stands alone. -/
structure Represents (L : Links α) (F : Forest α β) : Prop where
  child  : ∀ p, L.child p = (F.children p).head?
  linked : ∀ p, L.Linked none (F.children p) none
  root   : ∀ x, (∀ p, x ∉ F.children p) → L.Linked none [x] none

/-- A tree is gone when its nodes have no links any more and the others have kept theirs. -/
theorem Represents.fell (h : Represents L F) (hx : F.IsRoot x)
    (hkept : ∀ y, ¬ F.Within y x → L'.prev y = L.prev y ∧ L'.next y = L.next y ∧ L'.child y = L.child y)
    (hgone : ∀ y, F.Within y x → L'.prev y = none ∧ L'.next y = none ∧ L'.child y = none) :
    Represents L' (F.fell x hx) where
  child p := by
    rw [Forest.fell_children]
    split
    · exact (hgone p ‹_›).2.2
    · rw [(hkept p ‹_›).2.2]
      exact h.child p
  linked p := by
    rw [Forest.fell_children]
    split
    · trivial
    · rename_i hp
      refine (h.linked p).congr (fun y hy => ?_)
      have hy' : ¬ F.Within y x := by
        intro hw
        obtain rfl | ⟨q, hq, hqx⟩ := hw.cases
        · exact hx.2 p hy
        · rw [F.only hq hy] at hqx
          exact hp hqx
      exact ⟨(hkept y hy').1, (hkept y hy').2.1⟩
  root y hy := by
    by_cases hw : F.Within y x
    · exact linked_singleton.mpr ⟨(hgone y hw).1, (hgone y hw).2.1⟩
    · refine (h.root y (fun p hp => hy p ?_)).congr (fun z hz => ?_)
      · rw [Forest.fell_children, if_neg (fun hpx => hw (Forest.Within.child hp hpx))]
        exact hp
      · obtain rfl := List.mem_singleton.mp hz
        exact ⟨(hkept z hw).1, (hkept z hw).2.1⟩

variable [DecidableEq α]

/-- New children: the links have to be right for the new list and for the nodes that leave the old one. -/
theorem Represents.withChildren (h : Represents L F) (hfits : F.Fits p xs)
    (hframe : ∀ y, y ∉ F.children p → y ∉ xs → L'.prev y = L.prev y ∧ L'.next y = L.next y)
    (hchild : ∀ q, q ≠ p → L'.child q = L.child q) (hfirst : L'.child p = xs.head?)
    (hlinked : L'.Linked none xs none) (hleft : ∀ y ∈ F.children p, y ∉ xs → L'.Linked none [y] none) :
    Represents L' (F.withChildren p xs hfits) where
  child q := by
    rw [Forest.withChildren_children]
    by_cases hq : q = p
    · rw [hq, Function.update_self]
      exact hfirst
    · rw [Function.update_of_ne hq, hchild q hq]
      exact h.child q
  linked q := by
    rw [Forest.withChildren_children]
    by_cases hq : q = p
    · rw [hq, Function.update_self]
      exact hlinked
    · rw [Function.update_of_ne hq]
      refine (h.linked q).congr (fun y hy => hframe y (fun hyp => hq (F.only hy hyp)) (fun hyx => ?_))
      exact hq (hfits.only hyx hy)
  root y hy := by
    have hyxs : y ∉ xs := fun hmem => hy p (Forest.mem_update.mpr (Or.inl ⟨rfl, hmem⟩))
    by_cases hyp : y ∈ F.children p
    · exact hleft y hyp hyxs
    · have hroot : ∀ q, y ∉ F.children q := by
        intro q hq
        by_cases hqp : q = p
        · exact hyp (hqp ▸ hq)
        · exact hy q (Forest.mem_update.mpr (Or.inr ⟨hqp, hq⟩))
      refine (h.root y hroot).congr (fun z hz => ?_)
      obtain rfl := List.mem_singleton.mp hz
      exact hframe z hyp hyxs

theorem Represents.withLabel (h : Represents L F) : Represents L (F.withLabel x b) := ⟨h.child, h.linked, h.root⟩

end Siblings
