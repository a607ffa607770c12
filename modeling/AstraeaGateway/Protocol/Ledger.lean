import AstraeaGateway.Gateway.Selection
import AstraeaGateway.Protocol.ExactlyOnce

/-!
# `Protocol.Ledger` — what becomes of a request when requests may be outdated

`ExactlyOnce` is about runs in which no queued request is outdated. Here any request may be: the scan of a
release handler then discards some of what it pops, and may return what stands behind a discarded request
without testing it. What survives is the bookkeeping. As long as read-outs do not overlap, all that handlers
have scanned, joined in the order of their scans, is a `Ledger`: the popped requests and those about to be,
in the order of the queue, each with the release that took it and what became of it.
-/

namespace AstraeaGateway
namespace Protocol

open Transition Gateway

/-- An entry of the ledger: a request, the release that took it, and what became of it. -/
structure Settled where
  release : Nat
  entry   : Entry
  fate    : Fate
deriving DecidableEq, Repr

/-- The entries that were returned, with the release they were returned to. -/
def handedOut (ledger : List Settled) : List (Nat × Entry) :=
  (ledger.filter (fun x => x.fate = .returned)).map (fun x => (x.release, x.entry))

/-- `ledger` accounts for every request that was popped, and for no other but those about to be. -/
structure Ledger (tr : List Event) (s : State) (ledger : List Settled) : Prop where
  /-- It starts with what was popped, and goes on with what is at the front of the queue. -/
  popped    : s.popped <+: ledger.map Settled.entry
  queued    : ledger.map Settled.entry <+: s.pushes
  /-- A request has one place in it. -/
  once      : (ledger.map (fun x => x.entry.id)).Nodup
  /-- What was returned to a release is the list of that release. -/
  handed    : Handed s.releases (handedOut ledger)
  /-- What was discarded was outdated at a clock reading of the scan that discarded it. -/
  discarded : ∀ k e t, ⟨k, e, .discarded t⟩ ∈ ledger →
    ∃ clock, Event.scan k clock ∈ tr ∧ outdated (clock t) e.toRequest = true

variable {releases : Nat → Option Release} {received : List Nat} {duplicate requests : List Entry}
variable {phase phase' : Phase} {myQueue popped entries q : List Entry} {e : Entry} {k n left : Nat}
variable {since : Int} {s s' : State} {ev : Event} {tr : List Event} {ledger : List Settled}

/-! ## One scan -/

/-- The part of the ledger that the scan of release `k` writes. -/
def settle (k : Nat) (fates : List (Entry × Fate)) : List Settled :=
  fates.map (fun x => ⟨k, x.1, x.2⟩)

theorem map_entry_settle (k : Nat) (fates : List (Entry × Fate)) :
    (settle k fates).map Settled.entry = fates.map Prod.fst := by
  rw [settle, List.map_map]
  rfl

/-- What a scan hands out is what it returns. -/
theorem handedOut_settle (k : Nat) (fates : List (Entry × Fate)) :
    handedOut (settle k fates) = (returned fates).map (Prod.mk k) := by
  unfold handedOut settle returned
  rw [List.filter_map, List.map_map, List.map_map]
  rfl

theorem handedOut_append (ledger ledger' : List Settled) :
    handedOut (ledger ++ ledger') = handedOut ledger ++ handedOut ledger' := by
  unfold handedOut
  rw [List.filter_append, List.map_append]

/-- **A scan settles what it counts**: each of the first `countPops` requests of the copy is returned, or is
    discarded at a clock reading that shows it outdated. -/
theorem scan_settles {clock : Clock} {out : ReadOut Entry}
    (h : readLoop Entry.toRequest clock duplicate ⟨[], 0, 0⟩ = some out) :
    ∃ fates : List (Entry × Fate), fates.map Prod.fst = duplicate.take out.countPops ∧
      returned fates = out.requests ∧
      ∀ e t, (e, .discarded t) ∈ fates → outdated (clock t) e.toRequest = true := by
  rw [← walk_out _ _ []] at h
  obtain ⟨w, hw, rfl⟩ := Option.map_eq_some_iff.mp h
  obtain ⟨popped, hpopped, hinv, -⟩ := walk_inv hw [] ⟨rfl, rfl, rfl, nofun⟩
  rw [List.nil_append] at hpopped
  refine ⟨w.fates, ?_, hinv.requests, hinv.discarded⟩
  have hlen : popped.length = w.out.countPops := by
    rw [← hinv.popped, List.length_map, hinv.countPops]
  rw [hpopped, ← hlen, List.take_left, hinv.popped]

/-! ## The ledger against the queue -/

/-- A handler that scans its copy takes what it counts from the front of the queue. -/
theorem Window.take (hw : Window releases myQueue left) (hl : entries = popped ++ myQueue.take left)
    (hk : releases k = some ⟨received, .copied duplicate since⟩) (hn : n ≤ duplicate.length) :
    ∃ left', Window (Function.update releases k (some ⟨received, .popping requests n⟩)) myQueue left' ∧
      entries ++ duplicate.take n = popped ++ myQueue.take left' := by
  obtain ⟨hpre, hleft⟩ := hw.copied k _ _ _ hk
  by_cases hne : duplicate = []
  · subst hne
    obtain rfl := Nat.le_zero.mp hn
    exact ⟨left, hw.after hk rfl rfl, by rw [List.take_nil, List.append_nil, hl]⟩
  · -- nobody else is reading out, so no pops are left
    obtain rfl := hleft hne
    refine ⟨n, hw.scan hk hne hn, ?_⟩
    obtain ⟨rest, rfl⟩ := hpre
    rw [hl, List.take_zero, List.append_nil, List.take_append_of_le_length hn]

/-- The ledger as the steps keep it: what is left to pop is known, and the queue bears it out. -/
structure LedgerInv (tr : List Event) (releases : Nat → Option Release) (popped myQueue : List Entry)
    (left : Nat) (ledger : List Settled) : Prop where
  window    : Window releases myQueue left
  entries   : ledger.map Settled.entry = popped ++ myQueue.take left
  handed    : Handed releases (handedOut ledger)
  discarded : ∀ k e t, ⟨k, e, .discarded t⟩ ∈ ledger →
    ∃ clock, Event.scan k clock ∈ tr ∧ outdated (clock t) e.toRequest = true

/-- What a scan in the trace bears out stays borne out. -/
theorem LedgerInv.discarded_concat (h : LedgerInv tr releases popped myQueue left ledger) (ev : Event) (k : Nat)
    (e : Entry) (t : Nat) (hx : ⟨k, e, .discarded t⟩ ∈ ledger) :
    ∃ clock, Event.scan k clock ∈ tr ++ [ev] ∧ outdated (clock t) e.toRequest = true := by
  obtain ⟨clock, hmem, hout⟩ := h.discarded k e t hx
  exact ⟨clock, List.mem_append_left _ hmem, hout⟩

/-- A step that leaves the queue and the ledger alone. -/
theorem LedgerInv.same {releases' : Nat → Option Release} (h : LedgerInv tr releases popped myQueue left ledger)
    (hw : Window releases' myQueue left) (hh : Handed releases' (handedOut ledger)) :
    LedgerInv (tr ++ [ev]) releases' popped myQueue left ledger where
  window    := hw
  entries   := h.entries
  handed    := hh
  discarded := h.discarded_concat ev

/-- A handler that has read out goes on. -/
theorem LedgerInv.after (h : LedgerInv tr releases popped myQueue left ledger)
    (hk : releases k = some ⟨received, phase⟩) (hold : phase.readsOut = false)
    (hout : phase'.readsOut = false) (hreq : phase'.requests = phase.requests) :
    LedgerInv (tr ++ [ev]) (Function.update releases k (some ⟨received, phase'⟩)) popped myQueue left ledger :=
  h.same (h.window.after hk hold hout) (h.handed.goto hk hreq)

theorem LedgerInv.push (h : LedgerInv tr releases popped myQueue left ledger) (e : Entry) :
    LedgerInv (tr ++ [ev]) releases popped (myQueue ++ [e]) left ledger where
  window    := h.window.push e
  entries   := by rw [List.take_append_of_le_length h.window.bound, h.entries]
  handed    := h.handed
  discarded := h.discarded_concat ev

theorem LedgerInv.pop (h : LedgerInv tr releases popped (e :: q) left ledger)
    (hk : releases k = some ⟨received, .popping requests (n + 1)⟩) :
    LedgerInv (tr ++ [ev]) (Function.update releases k (some ⟨received, .popping requests n⟩))
      (popped ++ [e]) q n ledger where
  window    := h.window.pop hk
  entries   := by
    -- the pops this handler has to do are the pops left
    obtain rfl := h.window.popping _ _ _ _ hk (Nat.succ_ne_zero n)
    rw [h.entries, List.take_succ_cons]
    exact List.append_cons ..
  handed    := h.handed.goto hk rfl
  discarded := h.discarded_concat ev

theorem LedgerInv.scan {clock : Clock} {out : ReadOut Entry}
    (h : LedgerInv tr releases popped myQueue left ledger)
    (hk : releases k = some ⟨received, .copied duplicate since⟩)
    (hout : readLoop Entry.toRequest clock duplicate ⟨[], 0, 0⟩ = some out) :
    ∃ left' ledger', LedgerInv (tr ++ [.scan k clock])
      (Function.update releases k (some ⟨received, .popping out.requests out.countPops⟩)) popped myQueue
      left' ledger' := by
  obtain ⟨fates, hfates, hreturned, hdiscarded⟩ := scan_settles hout
  obtain ⟨left', hw', hentries⟩ := h.window.take h.entries hk (readLoop_sublist hout).1
  refine ⟨left', ledger ++ settle k fates, hw', ?_, ?_, ?_⟩
  · rw [List.map_append, map_entry_settle, hfates]
    exact hentries
  · rw [handedOut_append, handedOut_settle, hreturned]
    exact h.handed.scan hk rfl
  · intro j e t hx
    rcases List.mem_append.mp hx with hx | hx
    · exact h.discarded_concat _ j e t hx
    · obtain ⟨⟨e', fate⟩, hmem, heq⟩ := List.mem_map.mp hx
      obtain ⟨rfl, rfl, rfl⟩ := Settled.mk.inj heq
      exact ⟨clock, List.mem_append_right _ List.mem_cons_self, hdiscarded _ _ hmem⟩

theorem ledgerInv_step (hinv : Inv s) (h : LedgerInv tr s.releases s.popped s.myQueue left ledger)
    (hex : Exclusive s ev) (hstep : Step s ev s') :
    ∃ left' ledger', LedgerInv (tr ++ [ev]) s'.releases s'.popped s'.myQueue left' ledger' := by
  have hw := h.window
  have hh := h.handed
  cases hstep with
  | push => exact ⟨left, ledger, h.push _⟩
  | postRelease => exact ⟨left, ledger, h.same (hw.post hinv.release.fresh) (hh.post hinv.release.fresh)⟩
  | copy _ hk => exact ⟨left, ledger, h.same (hw.copy (hex.none hinv)) (hh.goto hk rfl)⟩
  | scan _ hk _ hout => exact h.scan hk hout
  | popNothing _ hk hq => exact absurd hq (hw.not_empty hk)
  | pop _ hk hq =>
      rw [hq] at h
      exact ⟨_, ledger, h.pop hk⟩
  | ret _ hk => exact ⟨left, ledger, h.after hk rfl rfl rfl⟩
  | respond _ hk => exact ⟨left, ledger, h.after hk rfl rfl rfl⟩
  | finish _ hk => exact ⟨left, ledger, h.after hk rfl rfl rfl⟩
  | _ => exact ⟨left, ledger, h.same hw hh⟩

theorem ledgerInv_initial :
    LedgerInv [] initial.releases initial.popped initial.myQueue 0 [] where
  window    := ⟨nofun, nofun, nofun, fun _ => rfl, Nat.le_refl 0⟩
  entries   := rfl
  handed    := ⟨nofun, nofun⟩
  discarded := nofun

theorem ledgerInv_of_path (h : system.Path Exclusive tr s) :
    Inv s ∧ ∃ left ledger, LedgerInv tr s.releases s.popped s.myQueue left ledger := by
  refine System.Path.invariant
    (P := fun tr s => Inv s ∧ ∃ left ledger, LedgerInv tr s.releases s.popped s.myQueue left ledger)
    ⟨inv_initial, 0, [], ledgerInv_initial⟩ ?_ h
  rintro tr s ev s' - ⟨hinv, left, ledger, hl⟩ hex hstep
  exact ⟨inv_step hinv hstep, ledgerInv_step hinv hl hex (step_cases hstep)⟩

/-! ## Each popped request is settled once -/

theorem ledger_of_inv (hinv : Inv s) (h : LedgerInv tr s.releases s.popped s.myQueue left ledger) :
    Ledger tr s ledger where
  popped := by
    rw [h.entries]
    exact List.prefix_append ..
  queued := by
    rw [h.entries]
    exact (List.prefix_append_right_inj _).mpr (List.take_prefix ..)
  once := by
    -- the ledger is in the order of the queue, and a request pushes once
    have hsub : (ledger.map Settled.entry).Sublist s.pushes := by
      rw [h.entries]
      exact (List.Sublist.refl _).append (List.take_sublist ..)
    have hids := hsub.map Entry.id
    rw [List.map_map] at hids
    exact hids.nodup hinv.push.once
  handed := h.handed
  discarded := h.discarded

theorem handedOut_ids_nodup (h : Ledger tr s ledger) :
    ((handedOut ledger).map (fun x => x.2.id)).Nodup := by
  have hsub := (List.filter_sublist (p := fun x => x.fate = .returned) (l := ledger)).map
    (fun x => x.entry.id)
  unfold handedOut
  rw [List.map_map]
  exact hsub.nodup h.once

/-- A request is answered at most once, whoever answers it. -/
theorem answered_once (hinv : Inv s) (h : Ledger tr s ledger) :
    (s.posted.map (fun resp => resp.entry.id)).Nodup := by
  have hids := handedOut_ids_nodup h
  have hlist : ∀ k rel, s.releases k = some rel → (rel.phase.requests.map Entry.id).Nodup := by
    intro k rel hk
    have hsub := (List.filter_sublist (p := fun x => x.1 = k) (l := handedOut ledger)).map
      (fun x => x.2.id)
    rw [← h.handed.lists k rel hk, List.map_map]
    exact hsub.nodup hids
  -- by release: within one the list is without repetition, and two share no request
  refine nodup_map_of_classes (g := Response.release) (fun k => ?_) (fun x hx y hy hid => ?_)
  · have hclass := answered_nodup hinv hlist k
    unfold answered at hclass
    rwa [List.map_map] at hclass
  · obtain ⟨rel, hrel, he⟩ := hinv.release.mem_requests hx
    obtain ⟨rel', hrel', he'⟩ := hinv.release.mem_requests hy
    have hsame := List.inj_on_of_nodup_map hids ((h.handed.mem hrel).mp he) ((h.handed.mem hrel').mp he')
      hid
    exact (Prod.mk.inj hsame).1

/-- **Settled once**, in every run in which read-outs do not overlap, however late requests are released:
    there is a ledger of all that was popped, and no request is answered twice. -/
theorem settled_once (h : system.Path Exclusive tr s) :
    (∃ ledger, Ledger tr s ledger) ∧ (s.posted.map (fun resp => resp.entry.id)).Nodup := by
  obtain ⟨hinv, left, ledger, hl⟩ := ledgerInv_of_path h
  have hledger := ledger_of_inv hinv hl
  exact ⟨⟨ledger, hledger⟩, answered_once hinv hledger⟩

/-- Request 0 is outdated when the release is handled, and takes request 1 along untested. -/
def releasedLate : List Event :=
  [.startWrite 0 (lit "INSERT") (lit "a"), .sendWrite 0, .stamp 0, .push 0, .tick 9, .deliverWrite 0,
   .startRead 1 (lit "SELECT") (lit "b"), .query 1 .noRows, .push 1, .postRelease 0, .copy 0,
   .scan 0 (Clock.held 9), .pop 0, .pop 0, .ret 0, .respond 0 1]

theorem settled_once_releasedLate : ∃ s, system.Path Exclusive releasedLate s ∧
    (∃ ledger, Ledger releasedLate s ledger) ∧ (s.posted.map (fun resp => resp.entry.id)).Nodup := by
  obtain ⟨s, hs, -⟩ := System.exists_path_of_runWhere system releasedLate
    (fun s ev => decide (Exclusive s ev)) (fun _ => true) (fun _ _ h => of_decide_eq_true h) (by decide)
  exact ⟨s, hs, settled_once hs⟩

end Protocol
end AstraeaGateway
