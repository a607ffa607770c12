import AstraeaGateway.Protocol.Snapshot

/-!
# `Protocol.ExactlyOnce` — is every request handed to one release handler?

Two handlers that read out at the same time copy the same requests, and the pops of the slower one fall on
requests that neither has copied: the first are answered twice, the second never (`overlapping`). When
read-outs do not overlap, the lists of all handlers joined in the order of their scans are the popped
requests and those about to be, so each request is in one list, once (`exactly_once`).
-/

namespace AstraeaGateway
namespace Protocol

open Transition Gateway

/-- Every request is handed to at most one handler and answered at most once, and none is popped that is
    handed to nobody. -/
structure ExactlyOnce (s : State) : Prop where
  oneHandler : ∀ i j rel rel', s.releases i = some rel → s.releases j = some rel' →
    ∀ e ∈ rel.phase.requests, ∀ e' ∈ rel'.phase.requests, e.id = e'.id → i = j
  onceInList : ∀ k rel, s.releases k = some rel → (rel.phase.requests.map Entry.id).Nodup
  answeredOnce : (s.posted.map (fun resp => resp.entry.id)).Nodup
  noneLost   : ∀ e ∈ s.popped, ∃ k rel, s.releases k = some rel ∧ e ∈ rel.phase.requests

variable {releases : Nat → Option Release} {order : List (Nat × Entry)} {received : List Nat}
variable {requests : List Entry} {phase phase' : Phase} {e : Entry} {k m n : Nat} {s s' : State}
variable {ev : Event} {tr : List Event} {rel : Release}

/-! ## The lists of all handlers -/

/-- `order` is the lists of all handlers, each entry with the handler it was handed to. -/
structure Handed (releases : Nat → Option Release) (order : List (Nat × Entry)) : Prop where
  lists : ∀ k rel, releases k = some rel →
    (order.filter (fun x => x.1 = k)).map Prod.snd = rel.phase.requests
  known : ∀ x ∈ order, ∃ rel, releases x.1 = some rel

theorem Handed.mem (h : Handed releases order) (hk : releases k = some rel) :
    e ∈ rel.phase.requests ↔ (k, e) ∈ order := by
  rw [← h.lists k rel hk]
  simp

/-- A handler moves on with the list it has. -/
theorem Handed.goto (h : Handed releases order) (hk : releases k = some ⟨received, phase⟩)
    (hreq : phase'.requests = phase.requests) :
    Handed (Function.update releases k (some ⟨received, phase'⟩)) order where
  lists j rel hj := by
    rcases update_eq_some hj with ⟨rfl, rfl⟩ | ⟨_, hj⟩
    · rw [hreq]
      exact h.lists j _ hk
    · exact h.lists j rel hj
  known x hx := update_known (h.known x hx) k _

theorem Handed.post (h : Handed releases order) (hm : releases m = none) :
    Handed (Function.update releases m (some ⟨received, .inFlight⟩)) order where
  lists j rel hj := by
    rcases update_eq_some hj with ⟨rfl, rfl⟩ | ⟨_, hj⟩
    · have hnil : order.filter (fun x => x.1 = j) = [] := by
        refine List.filter_eq_nil_iff.mpr (fun x hx hxj => ?_)
        obtain ⟨rel, hrel⟩ := h.known x hx
        rw [of_decide_eq_true hxj, hm] at hrel
        cases hrel
      rw [hnil]
      rfl
    · exact h.lists j rel hj
  known x hx := by
    obtain ⟨rel, hrel⟩ := h.known x hx
    exact ⟨rel, update_of_fresh hm hrel _⟩

/-- A handler gets its list. -/
theorem Handed.scan (h : Handed releases order) (hk : releases k = some ⟨received, phase⟩)
    (hnone : phase.requests = []) :
    Handed (Function.update releases k (some ⟨received, .popping requests n⟩))
      (order ++ requests.map (Prod.mk k)) where
  lists j rel hj := by
    rw [List.filter_append, List.map_append]
    rcases update_eq_some hj with ⟨rfl, rfl⟩ | ⟨hjk, hj⟩
    · have hall : (requests.map (Prod.mk j)).filter (fun x => x.1 = j) = requests.map (Prod.mk j) :=
        List.filter_eq_self.mpr (by simp)
      rw [h.lists j _ hk, hnone, hall, List.map_map]
      exact List.map_id requests
    · have hnil : (requests.map (Prod.mk k)).filter (fun x => x.1 = j) = [] :=
        List.filter_eq_nil_iff.mpr (by simp [Ne.symm hjk])
      rw [h.lists j rel hj, hnil]
      exact List.append_nil _
  known x hx := by
    refine update_known ?_ k _
    rcases List.mem_append.mp hx with hx | hx
    · exact h.known x hx
    · obtain ⟨e, _, rfl⟩ := List.mem_map.mp hx
      exact ⟨_, hk⟩

/-! ## The read-outs of a run -/

/-- The lists of all handlers, in order, are what has been read out. -/
def HandedInv (s : State) : Prop := ∃ left order, Window s.releases s.myQueue left ∧
  Handed s.releases order ∧ Served True s.popped s.myQueue left (order.map Prod.snd)

/-- Nobody is reading out when a handler copies the queue. -/
theorem Exclusive.none (h : Exclusive s (.copy k)) (hinv : Inv s) :
    ∀ j rel, s.releases j = some rel → rel.phase.readsOut = false :=
  fun j rel hj => h j (hinv.release.known j rel hj) rel hj

/-- What a handler has copied is marked as sent, as everything that was ever pushed. -/
theorem Inv.sent (h : Inv s) : ∀ e ∈ s.pushes, e.isSentToAstraea = true := by
  intro e he
  obtain ⟨c, _, _, hb⟩ := h.push.pushed e he
  exact hb.sent

theorem handedInv_step (hinv : Inv s) (h : HandedInv s) (hex : Exclusive s ev) (hfresh : FreshScan s ev)
    (hstep : Step s ev s') : HandedInv s' := by
  obtain ⟨left, order, hw, hh, hs⟩ := h
  cases hstep with
  | push => exact ⟨left, order, hw.push _, hh, hs.push hw.bound _⟩
  | postRelease => exact ⟨left, order, hw.post hinv.release.fresh, hh.post hinv.release.fresh, hs⟩
  | copy _ hk => exact ⟨left, order, hw.copy (hex.none hinv), hh.goto hk rfl, hs⟩
  | @scan k received duplicate since clock out _ hk _ hout =>
      obtain ⟨hle, hsub⟩ := readLoop_sublist hout
      have hfull : out.requests = duplicate ∧ out.countPops = duplicate.length :=
        scan_fresh (fun e he => hinv.sent e (hinv.release.held _ _ hk e he)) (hfresh _ hk) hout
      -- the list goes behind all lists so far, which is where its entries stand in the queue
      obtain ⟨left', hw', hs'⟩ := hw.serve hs hk hle hsub (fun _ => by rw [hfull.1, hfull.2])
      refine ⟨left', order ++ out.requests.map (Prod.mk k), hw', hh.scan hk rfl, ?_⟩
      have hsnd : (out.requests.map (Prod.mk k)).map Prod.snd = out.requests := by
        rw [List.map_map]
        exact List.map_id _
      rw [List.map_append, hsnd]
      exact hs'
  | popNothing _ hk hq => exact absurd hq (hw.not_empty hk)
  | pop _ hk hq =>
      rw [hq] at hw hs
      -- the pops this handler has to do are the pops left
      obtain rfl := hw.popping _ _ _ _ hk (Nat.succ_ne_zero _)
      exact ⟨_, order, hw.pop hk, hh.goto hk rfl, hs.pop⟩
  | ret _ hk => exact ⟨left, order, hw.after hk rfl rfl, hh.goto hk rfl, hs⟩
  | respond _ hk => exact ⟨left, order, hw.after hk rfl rfl, hh.goto hk rfl, hs⟩
  | finish _ hk => exact ⟨left, order, hw.after hk rfl rfl, hh.goto hk rfl, hs⟩
  | _ => exact ⟨left, order, hw, hh, hs⟩

theorem handedInv_initial : HandedInv initial :=
  ⟨0, [], ⟨nofun, nofun, nofun, fun _ => rfl, Nat.le_refl 0⟩, ⟨nofun, nofun⟩,
    ⟨List.Sublist.refl _, fun _ => rfl⟩⟩

theorem handedInv_of_path (h : system.Path (fun s ev => Exclusive s ev ∧ FreshScan s ev) tr s) :
    HandedInv s := by
  have hboth : Inv s ∧ HandedInv s := by
    refine System.Path.invariant_state (P := fun s => Inv s ∧ HandedInv s)
      ⟨inv_initial, handedInv_initial⟩ ?_ h
    rintro s ev s' ⟨hinv, hh⟩ ⟨hex, hfresh⟩ hstep
    exact ⟨inv_step hinv hstep, handedInv_step hinv hh hex hfresh (step_cases hstep)⟩
  exact hboth.2

/-! ## Exactly once -/

/-- A map is injective on a list if it is on each class of elements and tells the classes apart. -/
theorem nodup_map_of_classes {α β γ : Type} [DecidableEq γ] {f : α → β} {g : α → γ} {l : List α}
    (hclass : ∀ c, ((l.filter (fun x => g x = c)).map f).Nodup)
    (happart : ∀ x ∈ l, ∀ y ∈ l, f x = f y → g x = g y) : (l.map f).Nodup := by
  induction l with
  | nil => exact List.nodup_nil
  | cons x l ih =>
      rw [List.map_cons, List.nodup_cons]
      constructor
      · intro hx
        obtain ⟨y, hy, hyx⟩ := List.mem_map.mp hx
        have hg : g y = g x :=
          happart y (List.mem_cons_of_mem x hy) x List.mem_cons_self hyx
        have hself := hclass (g x)
        rw [List.filter_cons_of_pos (by simp), List.map_cons, List.nodup_cons] at hself
        exact hself.1 (List.mem_map.mpr ⟨y, List.mem_filter.mpr ⟨hy, by simp [hg]⟩, hyx⟩)
      · refine ih (fun c => ?_) (fun y hy z hz => ?_)
        · exact (((List.sublist_cons_self x l).filter _).map f).nodup (hclass c)
        · exact happart y (List.mem_cons_of_mem x hy) z (List.mem_cons_of_mem x hz)

/-- What was popped was handed to somebody. -/
theorem handed_of_popped {left : Nat} (hw : Window s.releases s.myQueue left)
    (hh : Handed s.releases order) (hs : Served True s.popped s.myQueue left (order.map Prod.snd))
    (he : e ∈ s.popped) : ∃ k rel, s.releases k = some rel ∧ e ∈ rel.phase.requests := by
  have hmem : e ∈ order.map Prod.snd := by
    rw [hs.eq trivial hw.bound]
    exact List.mem_append_left _ he
  obtain ⟨⟨k, e'⟩, hx, rfl⟩ := List.mem_map.mp hmem
  obtain ⟨rel, hrel⟩ := hh.known _ hx
  exact ⟨k, rel, hrel, (hh.mem hrel).mpr hx⟩

/-- The responses posted on one release are for different requests if its list is. -/
theorem answered_nodup (h : Inv s)
    (hlist : ∀ k rel, s.releases k = some rel → (rel.phase.requests.map Entry.id).Nodup) (k : Nat) :
    ((answered s.posted k).map Entry.id).Nodup := by
  cases hk : s.releases k with
  | none =>
      rw [h.release.answered_none hk]
      exact List.nodup_nil
  | some rel =>
      have hsub : (answered s.posted k).Sublist rel.phase.requests := by
        rw [← h.release.accounts k rel hk]
        exact List.sublist_append_left ..
      exact (hsub.map Entry.id).nodup (hlist k rel hk)

/-- **Exactly once**, in every run in which read-outs do not overlap and no queued request is outdated. -/
theorem exactly_once {tr : List Event} {s : State}
    (h : system.Path (fun s ev => Exclusive s ev ∧ FreshScan s ev) tr s) : ExactlyOnce s := by
  have hinv := inv_of_path h
  obtain ⟨left, order, hw, hh, hs⟩ := handedInv_of_path h
  -- what has been read out are pushed entries in order, and a request pushes once
  have hids : (order.map (fun x => x.2.id)).Nodup := by
    have hsub := (hs.sublist_pushes).map Entry.id
    rw [List.map_map] at hsub
    exact hsub.nodup hinv.push.once
  have hapart : ∀ i j rel rel', s.releases i = some rel → s.releases j = some rel' →
      ∀ e ∈ rel.phase.requests, ∀ e' ∈ rel'.phase.requests, e.id = e'.id → i = j := by
    intro i j rel rel' hi hj e he e' he' hid
    have hsame := List.inj_on_of_nodup_map hids ((hh.mem hi).mp he) ((hh.mem hj).mp he') hid
    exact (Prod.mk.inj hsame).1
  have hlist : ∀ k rel, s.releases k = some rel → (rel.phase.requests.map Entry.id).Nodup := by
    intro k rel hk
    have hsub := (List.filter_sublist (p := fun x => x.1 = k) (l := order)).map (fun x => x.2.id)
    rw [← hh.lists k rel hk, List.map_map]
    exact hsub.nodup hids
  refine ⟨hapart, hlist, ?_, ?_⟩
  · -- by release: within one the list is without repetition, and two share no request
    refine nodup_map_of_classes (g := Response.release) (fun k => ?_) (fun x hx y hy hid => ?_)
    · have hclass := answered_nodup hinv hlist k
      unfold answered at hclass
      rwa [List.map_map] at hclass
    · obtain ⟨rel, hrel, he⟩ := hinv.release.mem_requests hx
      obtain ⟨rel', hrel', he'⟩ := hinv.release.mem_requests hy
      exact hapart _ _ rel rel' hrel hrel' _ he _ he' hid
  · exact fun e he => handed_of_popped hw hh hs he

/-- Two releases handled in turn; the second request is pushed while the first release is read out. -/
def inTurn : List Event :=
  [.startRead 0 (lit "SELECT") (lit "a"), .sendWrite 0, .deliverWrite 0, .query 0 .noRows, .push 0,
   .postRelease 0, .postRelease 1, .copy 0, .startWrite 1 (lit "INSERT") (lit "b"), .sendWrite 1, .stamp 1,
   .push 1, .scan 0 (Clock.held 0), .pop 0, .ret 0, .copy 1, .respond 0 0, .scan 1 (Clock.held 5), .pop 1,
   .ret 1, .respond 1 1]

theorem exactly_once_inTurn : ∃ s,
    system.Path (fun s ev => Exclusive s ev ∧ FreshScan s ev) inTurn s ∧ ExactlyOnce s := by
  obtain ⟨s, hs, _⟩ := System.exists_path_of_runWhere system inTurn
    (fun s ev => decide (Exclusive s ev ∧ FreshScan s ev)) (fun _ => true)
    (fun _ _ h => of_decide_eq_true h) (by decide)
  exact ⟨s, hs, exactly_once hs⟩

/-! ## Overlapping read-outs -/

/-- Two handlers copy the queue while it holds request 0; request 1 is pushed between their pops. -/
def overlapping : List Event :=
  [.startRead 0 (lit "SELECT") (lit "a"), .sendWrite 0, .deliverWrite 0, .query 0 .noRows, .push 0,
   .postRelease 0, .postRelease 1, .copy 0, .copy 1, .scan 0 (Clock.held 0), .scan 1 (Clock.held 0),
   .pop 0, .ret 0, .startWrite 1 (lit "INSERT") (lit "b"), .sendWrite 1, .stamp 1, .push 1, .pop 1, .ret 1,
   .respond 0 0, .respond 1 0]

/-- **Answered twice, and lost.** Request 0 is handed to both handlers and answered by both; request 1 is
    popped and handed to neither. -/
theorem overlapping_twice_and_lost : ∃ s, system.Path FreshScan overlapping s ∧
    s.posted.map (fun resp => resp.entry.id) = [0, 0] ∧
    ∃ e ∈ s.popped, e.id = 1 ∧ ∀ k rel, s.releases k = some rel → e ∉ rel.phase.requests := by
  obtain ⟨s, hs, hp⟩ := System.exists_path_of_runWhere system overlapping
    (fun s ev => decide (FreshScan s ev))
    (fun s => decide (s.posted.map (fun resp => resp.entry.id) = [0, 0] ∧
      ∃ e ∈ s.popped, e.id = 1 ∧ ∀ k < s.nextRel, ∀ rel ∈ s.releases k, e ∉ rel.phase.requests))
    (fun _ _ h => of_decide_eq_true h) (by decide)
  obtain ⟨hposted, e, he, hid, hnone⟩ := of_decide_eq_true hp
  refine ⟨s, hs, hposted, e, he, hid, fun k rel hk => ?_⟩
  exact hnone k ((inv_of_path hs).release.known k rel hk) rel hk

end Protocol
end AstraeaGateway
