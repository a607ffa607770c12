import AstraeaGateway.Protocol.Invariant

/-!
# `Protocol.Snapshot` — reading out a copy while others push

A release handler works on a copy of `myQueue` and removes what it has read by a number of pops on the live
queue. That is sound as long as no other handler pops in between: pushes only add at the back, so the pops
still to do are for the front of the queue, which is what was read.

`Window` says this of the handler that is reading out, if there is one; `Served` says what has been read by
all handlers so far. Both are stated over the pops still to do (`left`), and have one lemma for each step.
-/

namespace AstraeaGateway
namespace Protocol

open Transition Gateway

/-- Between the copy of a queue that is not empty and the last pop. -/
def Phase.readsOut : Phase → Bool
  | .copied duplicate _  => !duplicate.isEmpty
  | .popping _ countPops => countPops != 0
  | _                    => false

/-- **Read-outs do not overlap.** A handler copies `myQueue` only when no other one is reading out. -/
def Exclusive (s : State) : Event → Prop
  | .copy _ => ∀ k < s.nextRel, ∀ rel ∈ s.releases k, rel.phase.readsOut = false
  | _       => True

/-- Between the copy and the end of the handler. -/
def Phase.active : Phase → Bool
  | .copied _ _ | .popping _ _ | .responding _ _ => true
  | _ => false

/-- **Releases are handled one at a time.** -/
def OneAtATime (s : State) : Event → Prop
  | .copy _ => ∀ k < s.nextRel, ∀ rel ∈ s.releases k, rel.phase.active = false
  | _       => True

/-- No request in the copy is outdated at a clock reading of the scan, of which there is one a request. -/
def FreshScan (s : State) : Event → Prop
  | .scan k clock => ∀ rel ∈ s.releases k, ∀ e ∈ rel.phase.held, ∀ n < rel.phase.held.length,
      outdated (clock n) e.toRequest = false
  | _             => True

instance (s : State) : (ev : Event) → Decidable (Exclusive s ev)
  | .copy _ => inferInstanceAs (Decidable
      (∀ k < s.nextRel, ∀ rel ∈ s.releases k, rel.phase.readsOut = false))
  | .tick _ | .startRead _ _ _ | .startWrite _ _ _ | .sendWrite _ | .loseWrite _ | .deliverWrite _
  | .query _ _ | .stamp _ | .push _ | .postRelease _ | .scan _ _ | .pop _ | .ret _ | .respond _ _
  | .finish _ | .deliver _ => isTrue trivial

instance (s : State) : (ev : Event) → Decidable (OneAtATime s ev)
  | .copy _ => inferInstanceAs (Decidable
      (∀ k < s.nextRel, ∀ rel ∈ s.releases k, rel.phase.active = false))
  | .tick _ | .startRead _ _ _ | .startWrite _ _ _ | .sendWrite _ | .loseWrite _ | .deliverWrite _
  | .query _ _ | .stamp _ | .push _ | .postRelease _ | .scan _ _ | .pop _ | .ret _ | .respond _ _
  | .finish _ | .deliver _ => isTrue trivial

instance (s : State) : (ev : Event) → Decidable (FreshScan s ev)
  | .scan k clock => inferInstanceAs (Decidable
      (∀ rel ∈ s.releases k, ∀ e ∈ rel.phase.held, ∀ n < rel.phase.held.length,
        outdated (clock n) e.toRequest = false))
  | .tick _ | .startRead _ _ _ | .startWrite _ _ _ | .sendWrite _ | .loseWrite _ | .deliverWrite _
  | .query _ _ | .stamp _ | .push _ | .postRelease _ | .copy _ | .pop _ | .ret _ | .respond _ _
  | .finish _ | .deliver _ => isTrue trivial

variable {releases : Nat → Option Release} {received : List Nat} {duplicate requests : List Entry}
variable {phase phase' : Phase} {myQueue popped acc q : List Entry} {e : Entry} {k m n left : Nat}
variable {since : Int}

theorem readsOut_of_not_active (h : phase.active = false) : phase.readsOut = false := by
  cases phase with
  | copied | popping | responding => cases h
  | _ => rfl

theorem OneAtATime.exclusive {s : State} {ev : Event} (h : OneAtATime s ev) : Exclusive s ev := by
  cases ev with
  | copy k => exact fun j hj rel hrel => readsOut_of_not_active (h j hj rel hrel)
  | _ => trivial

/-! ## At most one handler -/

/-- `p` holds where at most one handler stands. -/
def AtMostOne (p : Phase → Bool) (releases : Nat → Option Release) : Prop :=
  ∀ i j rel rel', releases i = some rel → releases j = some rel' →
    p rel.phase = true → p rel'.phase = true → i = j

variable {p : Phase → Bool}

theorem AtMostOne.others (h : AtMostOne p releases) (hk : releases k = some ⟨received, phase⟩)
    (hp : p phase = true) : ∀ j rel, j ≠ k → releases j = some rel → p rel.phase = false := by
  intro j rel hjk hj
  cases hr : p rel.phase with
  | false => rfl
  | true => exact absurd (h j k rel _ hj hk hr hp) hjk

/-- Handler `k` moves on while `p` holds of no other. -/
theorem atMostOne_of_others (hothers : ∀ j rel, j ≠ k → releases j = some rel → p rel.phase = false) :
    AtMostOne p (Function.update releases k (some ⟨received, phase⟩)) := by
  have hself : ∀ i rel, Function.update releases k (some ⟨received, phase⟩) i = some rel →
      p rel.phase = true → i = k := by
    intro i rel hi hr
    rcases update_eq_some hi with ⟨hik, _⟩ | ⟨hik, hi⟩
    · exact hik
    · rw [hothers i rel hik hi] at hr
      cases hr
  intro i j rel rel' hi hj hri hrj
  rw [hself i rel hi hri, hself j rel' hj hrj]

/-- Handler `k` moves to where `p` does not hold. -/
theorem AtMostOne.aside (h : AtMostOne p releases) (hp : p phase = false) :
    AtMostOne p (Function.update releases k (some ⟨received, phase⟩)) := by
  intro i j rel rel' hi hj hri hrj
  rcases update_eq_some hi with ⟨_, rfl⟩ | ⟨_, hi⟩
  · rw [hp] at hri
    cases hri
  · rcases update_eq_some hj with ⟨_, rfl⟩ | ⟨_, hj⟩
    · rw [hp] at hrj
      cases hrj
    · exact h i j rel rel' hi hj hri hrj

/-! ## The handler that is reading out -/

/-- At most one handler is reading out. What it has copied is still the front of the queue, and the pops it
    has still to do are `left`, which the queue is long enough for. -/
structure Window (releases : Nat → Option Release) (myQueue : List Entry) (left : Nat) : Prop where
  one     : ∀ i j rel rel', releases i = some rel → releases j = some rel' →
    rel.phase.readsOut = true → rel'.phase.readsOut = true → i = j
  copied  : ∀ k received duplicate since, releases k = some ⟨received, .copied duplicate since⟩ →
    duplicate <+: myQueue ∧ (duplicate ≠ [] → left = 0)
  popping : ∀ k received requests n, releases k = some ⟨received, .popping requests n⟩ →
    n ≠ 0 → n = left
  idle    : (∀ k rel, releases k = some rel → rel.phase.readsOut = false) → left = 0
  bound   : left ≤ myQueue.length

theorem Window.others (h : Window releases myQueue left) (hk : releases k = some ⟨received, phase⟩)
    (hout : phase.readsOut = true) :
    ∀ j rel, j ≠ k → releases j = some rel → rel.phase.readsOut = false :=
  AtMostOne.others (p := Phase.readsOut) h.one hk hout

theorem nil_of_not_readsOut (h : (Phase.copied duplicate since).readsOut = false) : duplicate = [] := by
  cases duplicate with
  | nil => rfl
  | cons => cases h

theorem zero_of_not_readsOut (h : (Phase.popping requests n).readsOut = false) : n = 0 := by
  cases n with
  | zero => rfl
  | succ => cases h

/-- Handler `k` moves on while no other one is reading out. -/
theorem window_of_only (hothers : ∀ j rel, j ≠ k → releases j = some rel → rel.phase.readsOut = false)
    (hcopied : ∀ duplicate since, phase = .copied duplicate since →
      duplicate <+: myQueue ∧ (duplicate ≠ [] → left = 0))
    (hpopping : ∀ requests n, phase = .popping requests n → n ≠ 0 → n = left)
    (hidle : phase.readsOut = false → left = 0) (hbound : left ≤ myQueue.length) :
    Window (Function.update releases k (some ⟨received, phase⟩)) myQueue left where
  one := atMostOne_of_others (p := Phase.readsOut) hothers
  copied j received' duplicate since hj := by
    rcases update_eq_some hj with ⟨_, heq⟩ | ⟨hjk, hj⟩
    · exact hcopied duplicate since (Release.mk.inj heq).2.symm
    · obtain rfl := nil_of_not_readsOut (hothers j _ hjk hj)
      exact ⟨List.nil_prefix, fun hne => absurd rfl hne⟩
  popping j received' requests n hj hn := by
    rcases update_eq_some hj with ⟨_, heq⟩ | ⟨hjk, hj⟩
    · exact hpopping requests n (Release.mk.inj heq).2.symm hn
    · exact absurd (zero_of_not_readsOut (hothers j _ hjk hj)) hn
  idle hnone := hidle (hnone k _ (Function.update_self ..))
  bound := hbound

/-- Handler `k` moves on without reading out, before or after. -/
theorem Window.aside (h : Window releases myQueue left)
    (hold : ∀ rel, releases k = some rel → rel.phase.readsOut = false) (hout : phase.readsOut = false) :
    Window (Function.update releases k (some ⟨received, phase⟩)) myQueue left where
  one := AtMostOne.aside (p := Phase.readsOut) h.one hout
  copied j received' duplicate since hj := by
    rcases update_eq_some hj with ⟨_, heq⟩ | ⟨_, hj⟩
    · obtain ⟨_, rfl⟩ := Release.mk.inj heq
      obtain rfl := nil_of_not_readsOut hout
      exact ⟨List.nil_prefix, fun hne => absurd rfl hne⟩
    · exact h.copied j _ _ _ hj
  popping j received' requests n hj hn := by
    rcases update_eq_some hj with ⟨_, heq⟩ | ⟨_, hj⟩
    · obtain ⟨_, rfl⟩ := Release.mk.inj heq
      exact absurd (zero_of_not_readsOut hout) hn
    · exact h.popping j _ _ _ hj hn
  idle hnone := by
    refine h.idle (fun j rel hj => ?_)
    by_cases hjk : j = k
    · subst hjk
      exact hold rel hj
    · exact hnone j rel (by rw [Function.update_of_ne hjk]; exact hj)
  bound := h.bound

/-- A handler that has read out goes on. -/
theorem Window.after (h : Window releases myQueue left) (hk : releases k = some ⟨received, phase⟩)
    (hold : phase.readsOut = false) (hout : phase'.readsOut = false) :
    Window (Function.update releases k (some ⟨received, phase'⟩)) myQueue left := by
  refine h.aside (fun rel hrel => ?_) hout
  obtain rfl := Option.some.inj (hk.symm.trans hrel)
  exact hold

theorem Window.post (h : Window releases myQueue left) (hm : releases m = none) :
    Window (Function.update releases m (some ⟨received, .inFlight⟩)) myQueue left := by
  refine h.aside (fun rel hrel => ?_) rfl
  rw [hm] at hrel
  cases hrel

theorem Window.push (h : Window releases myQueue left) (e : Entry) :
    Window releases (myQueue ++ [e]) left where
  one := h.one
  copied k received duplicate since hk := by
    -- a push at the back leaves the copy a prefix
    obtain ⟨hpre, hleft⟩ := h.copied k received duplicate since hk
    exact ⟨hpre.trans (List.prefix_append ..), hleft⟩
  popping := h.popping
  idle := h.idle
  bound := by
    have hb := h.bound
    rw [List.length_append]
    omega

theorem Window.copy (h : Window releases myQueue left)
    (hnone : ∀ j rel, releases j = some rel → rel.phase.readsOut = false) :
    Window (Function.update releases k (some ⟨received, .copied myQueue since⟩)) myQueue left := by
  have hleft := h.idle hnone
  refine window_of_only (fun j rel _ hj => hnone j rel hj) ?_ (fun _ _ heq => Phase.noConfusion heq)
    (fun _ => hleft) h.bound
  intro duplicate since heq
  obtain ⟨rfl, _⟩ := Phase.copied.inj heq
  exact ⟨List.prefix_refl _, fun _ => hleft⟩

theorem Window.scan (h : Window releases myQueue left)
    (hk : releases k = some ⟨received, .copied duplicate since⟩) (hne : duplicate ≠ [])
    (hn : n ≤ duplicate.length) :
    Window (Function.update releases k (some ⟨received, .popping requests n⟩)) myQueue n := by
  have hout : (Phase.copied duplicate since).readsOut = true := by
    cases duplicate with
    | nil => exact absurd rfl hne
    | cons => rfl
  refine window_of_only (h.others hk hout) (fun _ _ heq => Phase.noConfusion heq) ?_
    zero_of_not_readsOut (Nat.le_trans hn (h.copied k _ _ _ hk).1.length_le)
  intro _ _ heq _
  exact (Phase.popping.inj heq).2.symm

theorem Window.pop (h : Window releases (e :: q) left)
    (hk : releases k = some ⟨received, .popping requests (n + 1)⟩) :
    Window (Function.update releases k (some ⟨received, .popping requests n⟩)) q n := by
  refine window_of_only (h.others hk rfl) (fun _ _ heq => Phase.noConfusion heq) ?_
    zero_of_not_readsOut ?_
  · intro _ _ heq _
    exact (Phase.popping.inj heq).2.symm
  · have hleft := h.popping k _ _ _ hk (Nat.succ_ne_zero n)
    have hb := h.bound
    rw [List.length_cons] at hb
    omega

/-- The queue is long enough for the pops left: a guarded pop finds an entry. -/
theorem Window.not_empty (h : Window releases myQueue left)
    (hk : releases k = some ⟨received, .popping requests (n + 1)⟩) : myQueue ≠ [] := by
  rintro rfl
  have hleft := h.popping k _ _ _ hk (Nat.succ_ne_zero n)
  have hb := h.bound
  rw [List.length_nil] at hb
  omega

/-! ## What has been read so far -/

/-- `acc` is what all handlers have read so far: it comes from what was popped and what is about to be, in
    the order of the queue; all of it, if nothing read was outdated (`full`). -/
structure Served (full : Prop) (popped myQueue : List Entry) (left : Nat) (acc : List Entry) : Prop where
  sub : acc.Sublist (popped ++ myQueue.take left)
  all : full → acc.length = popped.length + left

variable {full : Prop}

theorem Served.push (h : Served full popped myQueue left acc) (hb : left ≤ myQueue.length) (e : Entry) :
    Served full popped (myQueue ++ [e]) left acc where
  sub := by
    rw [List.take_append_of_le_length hb]
    exact h.sub
  all := h.all

/-- A scan of the front of the queue. -/
theorem Served.scan (h : Served full popped myQueue 0 acc) (hpre : duplicate <+: myQueue)
    (hsub : requests.Sublist (duplicate.take n)) (hn : n ≤ duplicate.length)
    (hall : full → requests.length = n) : Served full popped myQueue n (acc ++ requests) where
  sub := by
    -- with no pops left, all that was read so far has been popped
    have hacc : acc.Sublist popped := by
      have hs := h.sub
      rwa [List.take_zero, List.append_nil] at hs
    have htake : duplicate.take n = myQueue.take n := by
      obtain ⟨rest, rfl⟩ := hpre
      rw [List.take_append_of_le_length hn]
    rw [htake] at hsub
    exact hacc.append hsub
  all hf := by
    have hl := h.all hf
    have hr := hall hf
    rw [List.length_append]
    omega

/-- A handler scans its copy: what it finds is added to what has been read, whoever else may be popping. -/
theorem Window.serve (hw : Window releases myQueue left) (hs : Served full popped myQueue left acc)
    (hk : releases k = some ⟨received, .copied duplicate since⟩) (hn : n ≤ duplicate.length)
    (hsub : requests.Sublist (duplicate.take n)) (hall : full → requests.length = n) :
    ∃ left', Window (Function.update releases k (some ⟨received, .popping requests n⟩)) myQueue left' ∧
      Served full popped myQueue left' (acc ++ requests) := by
  obtain ⟨hpre, hleft⟩ := hw.copied k _ _ _ hk
  by_cases hne : duplicate = []
  · -- an empty copy: nothing read, nothing to pop
    subst hne
    obtain rfl := Nat.le_zero.mp hn
    obtain rfl := List.sublist_nil.mp hsub
    exact ⟨left, hw.after hk rfl rfl, by rwa [List.append_nil]⟩
  · obtain rfl := hleft hne
    exact ⟨n, hw.scan hk hne hn, hs.scan hpre hsub hn hall⟩

theorem Served.pop (h : Served full popped (e :: q) (n + 1) acc) :
    Served full (popped ++ [e]) q n acc where
  sub := by
    have hs := h.sub
    rw [List.take_succ_cons, List.append_cons] at hs
    exact hs
  all hf := by
    have hl := h.all hf
    rw [List.length_append, List.length_singleton]
    omega

/-- What has been read is all there was to read. -/
theorem Served.eq (h : Served full popped myQueue left acc) (hf : full) (hb : left ≤ myQueue.length) :
    acc = popped ++ myQueue.take left := by
  refine h.sub.eq_of_length ?_
  rw [h.all hf, List.length_append, List.length_take, Nat.min_eq_left hb]

theorem Served.sublist_pushes (h : Served full popped myQueue left acc) :
    acc.Sublist (popped ++ myQueue) :=
  h.sub.trans ((List.Sublist.refl popped).append (List.take_sublist ..))

/-- A fresh scan reads its whole copy. -/
theorem scan_fresh {clock : Clock} {out : ReadOut Entry}
    (hsent : ∀ e ∈ duplicate, e.isSentToAstraea = true)
    (hfresh : ∀ e ∈ duplicate, ∀ n < duplicate.length, outdated (clock n) e.toRequest = false)
    (hout : readLoop Entry.toRequest clock duplicate ⟨[], 0, 0⟩ = some out) :
    out.requests = duplicate ∧ out.countPops = duplicate.length := by
  have hloop : readLoop Entry.toRequest clock duplicate ⟨[], 0, 0⟩
      = some ⟨duplicate, duplicate.length, 0 + duplicate.length⟩ :=
    readLoop_of_fresh hsent (fun n _ hn e he => hfresh e he n (by omega))
  obtain rfl := Option.some.inj (hloop.symm.trans hout)
  exact ⟨rfl, rfl⟩

end Protocol
end AstraeaGateway
