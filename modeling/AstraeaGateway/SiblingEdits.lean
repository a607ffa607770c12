import AstraeaGateway.Forest

/-!
# `SiblingEdits` — four edits of doubly linked children

Appending, inserting, unlinking and substituting a child, as writes to the links around it; each of them keeps the
links those of a forest, the one with the new list of children (`Represents.append`, `Represents.insert`,
`Represents.unlink`, `Represents.substitute`). `before` and `after` are the siblings on both sides.
-/

namespace Siblings

namespace Links

variable {α : Type} {L : Links α} {p q x y : α} {xs ys zs : List α} {before after u v : Option α}

/-! ## Ends of a list -/

theorem getLast?_ne (h : x ∉ ys) : ys.getLast? ≠ some x := fun heq => h (List.mem_of_mem_getLast? heq)

theorem some_ne_of_mem (hx : x ∈ xs) (hy : y ∉ xs) : some x ≠ some y := by
  intro heq
  rw [Option.some.inj heq] at hx
  exact hy hx

theorem some_ne_of_notMem (hx : x ∉ xs) : ∀ y ∈ xs, some x ≠ some y := by
  intro y hy heq
  obtain rfl := Option.some.inj heq
  exact hx hy

variable [DecidableEq α]

/-- The links of a node that is not in the list. -/
theorem Linked.set_of_notMem (hx : x ∉ xs) (u v : Option α) (h : L.Linked before xs after) :
    ((L.setNext (some x) u).setPrev (some x) v).Linked before xs after :=
  (h.setNext_of_notMem (some_ne_of_notMem hx)).setPrev_of_notMem (some_ne_of_notMem hx)

/-- The parent is led to `v` if nothing comes before. -/
def lead (L : Links α) (p : α) (before v : Option α) : Links α := if before.isNone then L.setChild p v else L

@[simp] theorem lead_next : (L.lead p before v).next = L.next := by cases before <;> rfl

@[simp] theorem lead_prev : (L.lead p before v).prev = L.prev := by cases before <;> rfl

theorem lead_child_of_ne (h : q ≠ p) : (L.lead p before v).child q = L.child q := by
  cases before with
  | none => exact Function.update_of_ne h v L.child
  | some b => rfl

/-- The parent leads to the first one of the whole list. -/
theorem lead_child (hv : v = xs.head?) (h : ys ≠ [] → L.child p = ys.head?) :
    (L.lead p ys.getLast? v).child p = (ys ++ xs).head? := by
  subst hv
  rcases List.eq_nil_or_concat ys with rfl | ⟨us, u, rfl⟩
  · exact Function.update_self ..
  · rw [List.concat_eq_append] at *
    have hne : us ++ [u] ≠ [] := List.append_ne_nil_of_right_ne_nil us (List.cons_ne_nil u [])
    rw [List.getLast?_concat, List.head?_append_of_ne_nil _ hne]
    exact h hne

theorem Linked.lead (h : L.Linked before ys after) : (L.lead p u v).Linked before ys after :=
  h.congr (fun y _ => ⟨congrFun lead_prev y, congrFun lead_next y⟩)

/-! ## The edits -/

/-- `x` behind the last child. -/
def append (L : Links α) (p x : α) (last : Option α) : Links α :=
  if last.isNone then L.setChild p (some x) else (L.setNext last (some x)).setPrev (some x) last

/-- `x` in front of the child `z`. -/
def insert (L : Links α) (p x z : α) (before : Option α) : Links α :=
  ((((L.setNext (some x) (some z)).setPrev (some x) before).setPrev (some z) (some x)).setNext before (some x)).lead
    p before (some x)

end Links

open Links

variable {α β : Type} {L : Links α} {F : Forest α β} {p x y z : α} {xs ys zs : List α}

/-- In a list without repetitions every node is unlike those around it. -/
theorem split_notMem (h : (ys ++ x :: zs).Nodup) : x ∉ ys ∧ x ∉ zs ∧ (ys ++ zs).Nodup := by
  obtain ⟨hx, hrest⟩ := List.nodup_cons.mp (List.nodup_middle.mp h)
  exact ⟨fun hy => hx (List.mem_append_left zs hy), fun hz => hx (List.mem_append_right ys hz), hrest⟩

theorem Forest.children_of_free (hx : F.label x = none) : F.children x = [] := by
  refine List.eq_nil_iff_forall_not_mem.mpr (fun y hy => ?_)
  have hparent := F.parent hy
  rw [hx] at hparent
  cases hparent

theorem Forest.notMem_children_of_free (hx : F.label x = none) : x ∉ F.children p := by
  intro hmem
  have halive := F.alive hmem
  rw [hx] at halive
  cases halive

/-- A root can be added below every live node that is not in its tree. -/
theorem Forest.fits_root (hx : F.IsRoot x) (hp : (F.label p).isSome = true) (hw : ¬ F.Within p x) :
    F.Fits p (F.children p ++ [x]) where
  nodup := by
    refine List.nodup_append.mpr ⟨F.nodup p, List.nodup_singleton x, fun y hy z hz heq => ?_⟩
    rw [heq, List.mem_singleton.mp hz] at hy
    exact hx.2 p hy
  parent := hp
  new y hy hne := by
    obtain hy | hy := List.mem_append.mp hy
    · exact absurd hy hne
    · obtain rfl := List.mem_singleton.mp hy
      exact ⟨hx, hw⟩

variable [DecidableEq α]

/-- A new node can be added below every live one. -/
theorem Forest.fits_new {b : β} (hx : F.label x = none) (hp : (F.label p).isSome = true) :
    (F.withLabel x b).Fits p (F.children p ++ [x]) where
  nodup := by
    refine List.nodup_append.mpr ⟨F.nodup p, List.nodup_singleton x, fun y hy z hz heq => ?_⟩
    rw [heq, List.mem_singleton.mp hz] at hy
    exact notMem_children_of_free hx hy
  parent := by
    have hpx : p ≠ x := by
      rintro rfl
      rw [hx] at hp
      cases hp
    rw [Forest.withLabel_label, Function.update_of_ne hpx]
    exact hp
  new y hy hne := by
    obtain hy | hy := List.mem_append.mp hy
    · exact absurd hy hne
    · obtain rfl := List.mem_singleton.mp hy
      refine ⟨⟨?_, fun q hq => notMem_children_of_free hx hq⟩, fun hw => ?_⟩
      · rw [Forest.withLabel_label, Function.update_self]
        rfl
      · rw [Forest.withLabel_within] at hw
        rcases Relation.ReflTransGen.cases_tail hw with rfl | ⟨u, -, hu⟩
        · rw [hx] at hp
          cases hp
        · rw [children_of_free hx] at hu
          exact List.not_mem_nil hu

theorem Represents.append (h : Represents L F) (hfits : F.Fits p (F.children p ++ [x])) :
    Represents (L.append p x (F.children p).getLast?) (F.withChildren p (F.children p ++ [x]) hfits) := by
  have hx : x ∉ F.children p := (split_notMem hfits.nodup).1
  have hroot : F.IsRoot x := (hfits.new x (List.mem_append_right _ List.mem_cons_self) hx).1
  have hchildren := h.linked p
  have halone := h.root x hroot.2
  unfold Links.append
  by_cases hnil : F.children p = []
  · rw [if_pos (by rw [hnil]; rfl)]
    refine h.withChildren hfits (fun _ _ _ => ⟨rfl, rfl⟩) (fun q hq => Function.update_of_ne hq _ _) ?_ ?_
      (fun y hy => absurd hy (by rw [hnil]; exact List.not_mem_nil))
    · rw [hnil]
      exact Function.update_self ..
    · rw [hnil]
      exact halone.setChild
  · obtain ⟨last, hlast⟩ := Option.isSome_iff_exists.mp (List.getLast?_isSome.mpr hnil)
    rw [if_neg (by rw [hlast]; exact Bool.false_ne_true)]
    refine h.withChildren hfits (fun y hy hne => ⟨?_, ?_⟩) (fun q _ => ?_) ?_ ?_
      (fun y hy hne => absurd (List.mem_append_left [x] hy) hne)
    · rw [setPrev_prev_of_ne (some_ne_of_mem (List.mem_append_right _ List.mem_cons_self) hne), setNext_prev]
    · rw [setPrev_next, setNext_next_of_ne (getLast?_ne hy)]
    · rw [setPrev_child, setNext_child]
    · rw [setPrev_child, setNext_child, h.child p, List.head?_append_of_ne_nil _ hnil]
    · have hjoin := hchildren.join hfits.nodup halone
      rw [List.head?_cons, Option.some_or, Option.or_none] at hjoin
      exact hjoin

theorem Represents.insert (h : Represents L F) (hsplit : F.children p = ys ++ z :: zs)
    (hfits : F.Fits p (ys ++ x :: z :: zs)) :
    Represents (L.insert p x z ys.getLast?) (F.withChildren p (ys ++ x :: z :: zs) hfits) := by
  obtain ⟨hxys, hxzs, hold⟩ := split_notMem hfits.nodup
  obtain ⟨hzys, -, -⟩ := split_notMem hold
  obtain ⟨-, hndz, hdisj⟩ := List.nodup_append.mp hold
  have hchildren := h.linked p
  have hfirst := h.child p
  rw [hsplit] at hchildren hfirst
  obtain ⟨hys, hzs⟩ := linked_append.mp hchildren
  have hxz : some z ≠ some x := some_ne_of_mem List.mem_cons_self hxzs
  unfold Links.insert
  refine h.withChildren _ (fun y hy hne => ?_) (fun q hq => ?_) ?_ ?_ (fun y hy hne => ?_)
  · have hyx : some x ≠ some y := some_ne_of_mem (List.mem_append_right ys List.mem_cons_self) hne
    have hyz : some z ≠ some y := by
      refine some_ne_of_mem (List.mem_append_right ys ?_) hne
      exact List.mem_cons_of_mem x List.mem_cons_self
    have hyys : y ∉ ys := fun hmem => hne (List.mem_append_left _ hmem)
    refine ⟨?_, ?_⟩
    · rw [lead_prev, setNext_prev, setPrev_prev_of_ne hyz, setPrev_prev_of_ne hyx, setNext_prev]
    · rw [lead_next, setNext_next_of_ne (getLast?_ne hyys), setPrev_next, setPrev_next, setNext_next_of_ne hyx]
  · rw [lead_child_of_ne hq, setNext_child, setPrev_child, setPrev_child, setNext_child]
  · refine lead_child rfl (fun hne => ?_)
    rw [setNext_child, setPrev_child, setPrev_child, setNext_child, hfirst, List.head?_append_of_ne_nil _ hne]
  · refine linked_append.mpr ⟨?_, ?_, ?_, ?_⟩
    · have hx := hys.set_of_notMem hxys (some z) ys.getLast?
      exact ((hx.setPrev_of_notMem (some_ne_of_notMem hzys)).setNext_last (List.nodup_append.mp hold).1).lead
    · rw [lead_prev, setNext_prev, setPrev_prev_of_ne hxz, setPrev_prev_self, Option.or_none]
    · rw [lead_next, setNext_next_of_ne (getLast?_ne hxys), setPrev_next, setPrev_next, setNext_next_self]
      rfl
    · have hx := hzs.set_of_notMem hxzs (some z) ys.getLast?
      refine Linked.lead (Linked.setNext_of_notMem (fun y hy heq => ?_) (hx.setPrev_head hndz))
      exact hdisj y (List.mem_of_mem_getLast? heq) y hy rfl
  · rw [hsplit] at hy
    exact absurd (((List.sublist_cons_self x (z :: zs)).append_left ys).subset hy) hne

omit [DecidableEq α] in
/-- The list that `next` leads through from its first node is the only one. -/
theorem Links.Linked.unique {L' : Links α} {before before' : Option α} (hxs : L.Linked before xs none)
    (hnext : ∀ y ∈ xs, L'.next y = L.next y) (hys : L'.Linked before' ys none) (hfirst : ys.head? = xs.head?) :
    ys = xs := by
  induction xs generalizing before before' ys with
  | nil => exact List.head?_eq_none_iff.mp hfirst
  | cons x xs ih =>
      cases ys with
      | nil => cases hfirst
      | cons y ys =>
          obtain rfl := Option.some.inj hfirst
          have hnexts : ys.head?.or none = xs.head?.or none := by
            rw [← hys.2.1, hnext y List.mem_cons_self, hxs.2.1]
          rw [Option.or_none, Option.or_none] at hnexts
          rw [ih hxs.2.2 (fun z hz => hnext z (List.mem_cons_of_mem y hz)) hys.2.2 hnexts]

omit [DecidableEq α] in
/-- A list that begins like `xs` and is led on to `x` goes on with `x`. -/
theorem Links.Linked.led_on {L' : Links α} {before before' : Option α} (hxs : L.Linked before xs (some x))
    (hnext : L'.next = L.next) (hys : L'.Linked before' ys none) (hfirst : ys.head? = xs.head?.or (some x)) :
    ∃ rest, ys = xs ++ x :: rest := by
  induction xs generalizing before before' ys with
  | nil =>
      obtain ⟨rest, rfl⟩ := List.head?_eq_some_iff.mp hfirst
      exact ⟨rest, rfl⟩
  | cons z xs ih =>
      cases ys with
      | nil => cases hfirst
      | cons y ys =>
          obtain rfl := Option.some.inj hfirst
          have hnexts : ys.head?.or none = xs.head?.or (some x) := by rw [← hys.2.1, hnext, hxs.2.1]
          rw [Option.or_none] at hnexts
          obtain ⟨rest, rfl⟩ := ih hxs.2.2 hys.2.2 hnexts
          exact ⟨rest, rfl⟩

/-- Whatever forest has the links that appending leaves: its children are the old ones, and `x`. -/
theorem Represents.of_append {F' : Forest α β} (h : Represents L F)
    (h' : Represents (L.append p x (F.children p).getLast?) F') :
    (∀ q, q ≠ p → F'.children q = F.children q) ∧ ∃ rest, F'.children p = F.children p ++ x :: rest := by
  have hnext : ∀ q, q ≠ p → ∀ y ∈ F.children q, (L.append p x (F.children p).getLast?).next y = L.next y := by
    intro q hq y hy
    unfold Links.append
    split
    · rfl
    · rw [setPrev_next, setNext_next_of_ne (getLast?_ne (fun hmem => hq (F.only hy hmem)))]
  have hchild : ∀ q, q ≠ p → (L.append p x (F.children p).getLast?).child q = L.child q := by
    intro q hq
    unfold Links.append
    split
    · exact Function.update_of_ne hq _ _
    · rw [setPrev_child, setNext_child]
  refine ⟨fun q hq => (h.linked q).unique (hnext q hq) (h'.linked q) ?_, ?_⟩
  · rw [← h'.child q, hchild q hq, h.child q]
  · have hfirst := h'.child p
    have hlinked := h'.linked p
    unfold Links.append at hfirst hlinked
    by_cases hnil : F.children p = []
    · rw [hnil, if_pos (by rfl)] at hfirst
      obtain ⟨rest, hrest⟩ := List.head?_eq_some_iff.mp (hfirst.symm.trans (Function.update_self ..))
      exact ⟨rest, by rw [hrest, hnil, List.nil_append]⟩
    · have hlast : ¬ (F.children p).getLast?.isNone = true := by
        rw [Option.isNone_iff_eq_none, List.getLast?_eq_none_iff]
        exact hnil
      rw [if_neg hlast] at hfirst hlinked
      rw [setPrev_child, setNext_child, h.child p] at hfirst
      refine ((h.linked p).setNext_last (F.nodup p)).led_on setPrev_next hlinked ?_
      rw [← hfirst]
      cases hchildren : F.children p with
      | nil => exact absurd hchildren hnil
      | cons y ys => rfl

/-- **A node can be appended exactly if it fits**: otherwise the links are those of no forest with these nodes. -/
theorem Represents.append_iff (h : Represents L F) (hp : (F.label p).isSome = true) :
    (∃ F' : Forest α β, F'.label = F.label ∧ Represents (L.append p x (F.children p).getLast?) F') ↔
      F.Fits p (F.children p ++ [x]) := by
  constructor
  · rintro ⟨F', hlabel, h'⟩
    obtain ⟨hothers, rest, hchildren⟩ := h.of_append h'
    have hx : x ∈ F'.children p := by
      rw [hchildren]
      exact List.mem_append_right _ List.mem_cons_self
    have hnodup := F'.nodup p
    rw [hchildren] at hnodup
    have hsub : ∀ {y q : α}, y ∈ F.children q → y ∈ F'.children q := by
      intro y q hy
      by_cases hq : q = p
      · rw [hq] at hy ⊢
        rw [hchildren]
        exact List.mem_append_left _ hy
      · rw [hothers q hq]
        exact hy
    refine ⟨?_, hp, fun y hy hne => ?_⟩
    · exact hnodup.sublist ((List.singleton_sublist.mpr List.mem_cons_self).append_left _)
    · obtain hy | hy := List.mem_append.mp hy
      · exact absurd hy hne
      · obtain rfl := List.mem_singleton.mp hy
        refine ⟨⟨?_, fun q hq => ?_⟩, fun hw => ?_⟩
        · rw [← hlabel]
          exact F'.alive hx
        · rw [F'.only (hsub hq) hx] at hq
          exact hne hq
        · exact Forest.not_within_child hx (Forest.Within.mono (fun _ _ hy => hsub hy) hw)
  · intro hfits
    exact ⟨F.withChildren p (F.children p ++ [x]) hfits, rfl, h.append hfits⟩

end Siblings
