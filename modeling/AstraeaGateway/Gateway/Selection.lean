import AstraeaGateway.Gateway.ReadOut

/-!
# `Gateway.Selection` — which requests the read-out returns, and what becomes of the others

* `walk` — the first loop with its history: what became of each request it popped off the copy, and where it
  stopped. `readOut_exact` reads the whole effect of a call off that history: nothing is lost, returned twice
  or reordered, as long as the pops can be counted (`Gateway.Bounded.ReadOut` has the `int` that counts them).
* `readOut_valid_iff` — when is everything returned marked as sent and not outdated? The loop tests one
  request, discards it if it is outdated, and returns the next one untested; `OutdatedBeforeValid` is what
  the queue must look like for that to be harmless.
-/

namespace AstraeaGateway
namespace Gateway

variable {α : Type} {req : α → Request} {clock : Clock}

/-! ## The first loop with its history -/

/-- What became of a request that was popped off the copy. -/
inductive Fate
  | returned
  | discarded (reading : Nat)  -- the clock reading that found it outdated
deriving DecidableEq, Repr

/-- The first loop at its end: its result, its history, and what is left of `duplicate`. -/
structure Walk (α : Type) where
  out       : ReadOut α
  fates     : List (α × Fate)
  duplicate : List α

/-- `readLoop`, keeping the history. -/
def walk (req : α → Request) (clock : Clock) :
    List α → ReadOut α → List (α × Fate) → Option (Walk α)
  | [], out, fates => some ⟨out, fates, []⟩
  | front :: rest, out, fates =>
      let reads := if (req front).isSentToAstraea then out.reads else out.reads + 1
      if (req front).isSentToAstraea || outdated (clock out.reads) (req front) then
        if outdated (clock reads) (req front) then
          match rest with
          | []           => none
          | next :: rest => walk req clock rest ⟨out.requests ++ [next], out.countPops + 2, reads + 1⟩
              (fates ++ [(front, .discarded reads), (next, .returned)])
        else walk req clock rest ⟨out.requests ++ [front], out.countPops + 1, reads + 1⟩
              (fates ++ [(front, .returned)])
      else some ⟨{ out with reads := reads }, fates, front :: rest⟩

/-- The history does not change what the loop computes. -/
theorem walk_out (q : List α) (out : ReadOut α) (fates : List (α × Fate)) :
    (walk req clock q out fates).map Walk.out = readLoop req clock q out := by
  fun_induction walk req clock q out fates with
  | case1 => rfl
  | case2 front out fates reads htest hout => simp [readLoop, reads, htest, hout]
  | case3 front out fates reads htest hout next rest ih =>
      refine ih.trans (Eq.symm ?_)
      simp [readLoop, reads, htest, hout]
  | case4 front rest out fates reads htest hout ih =>
      refine ih.trans (Eq.symm ?_)
      rw [readLoop.eq_def]
      simp [reads, htest, hout]
  | case5 front rest out fates reads htest =>
      rw [readLoop.eq_def]
      simp [reads, htest]

/-- The requests that were returned. -/
def returned (fates : List (α × Fate)) : List α := (fates.filter (fun x => x.2 = .returned)).map Prod.fst

/-- **The loop invariant.** The history accounts for every request popped off the copy, in order. -/
structure WalkInv (req : α → Request) (clock : Clock) (popped : List α) (out : ReadOut α)
    (fates : List (α × Fate)) : Prop where
  popped    : fates.map Prod.fst = popped
  requests  : returned fates = out.requests
  countPops : fates.length = out.countPops
  discarded : ∀ e t, (e, .discarded t) ∈ fates → outdated (clock t) (req e) = true

/-- Where the loop stops: in front of nothing, or of a request that its last clock reading shows to be
    neither sent nor outdated. -/
def Stopped (req : α → Request) (clock : Clock) (w : Walk α) : Prop :=
  w.duplicate = [] ∨ ∃ front rest t, w.duplicate = front :: rest ∧ w.out.reads = t + 1 ∧
    (req front).isSentToAstraea = false ∧ outdated (clock t) (req front) = false

variable {popped : List α} {out : ReadOut α} {fates : List (α × Fate)} {e : α} {t : Nat}

/-- One pop adds one fate to the history. -/
theorem WalkInv.pop {fate : Fate} (h : WalkInv req clock popped out fates)
    (hfate : ∀ t, fate = .discarded t → outdated (clock t) (req e) = true) (reads : Nat) :
    WalkInv req clock (popped ++ [e]) ⟨out.requests ++ returned [(e, fate)], out.countPops + 1, reads⟩
      (fates ++ [(e, fate)]) where
  popped := by
    rw [List.map_append, h.popped]
    rfl
  requests := by
    rw [← h.requests, returned, List.filter_append, List.map_append]
    rfl
  countPops := by
    rw [List.length_append, h.countPops]
    rfl
  discarded x t hx := by
    rcases List.mem_append.mp hx with hx | hx
    · exact h.discarded x t hx
    · obtain ⟨rfl, rfl⟩ := Prod.mk.inj (List.mem_singleton.mp hx)
      exact hfate t rfl

theorem WalkInv.keep (h : WalkInv req clock popped out fates) (e : α) (reads : Nat) :
    WalkInv req clock (popped ++ [e]) ⟨out.requests ++ [e], out.countPops + 1, reads⟩
      (fates ++ [(e, .returned)]) := by
  have hfate : ∀ n, Fate.returned = .discarded n → outdated (clock n) (req e) = true := by
    rintro n ⟨⟩
  exact h.pop hfate reads

theorem WalkInv.discard (h : WalkInv req clock popped out fates)
    (hout : outdated (clock t) (req e) = true) (reads : Nat) :
    WalkInv req clock (popped ++ [e]) ⟨out.requests, out.countPops + 1, reads⟩
      (fates ++ [(e, .discarded t)]) := by
  have hfate : ∀ n, Fate.discarded t = .discarded n → outdated (clock n) (req e) = true := by
    rintro n ⟨⟩
    exact hout
  have hpop := h.pop hfate reads
  rwa [show returned [(e, Fate.discarded t)] = [] from rfl, List.append_nil] at hpop

/-- Each iteration keeps the invariant: it returns one request, or discards one and returns the next. -/
theorem walk_inv {q : List α} {w : Walk α} : walk req clock q out fates = some w →
    ∀ popped, WalkInv req clock popped out fates → ∃ popped', popped ++ q = popped' ++ w.duplicate ∧
      WalkInv req clock popped' w.out w.fates ∧ Stopped req clock w := by
  fun_induction walk req clock q out fates with
  | case1 out fates =>
      intro h popped hinv
      obtain rfl := Option.some.inj h
      exact ⟨popped, rfl, hinv, Or.inl rfl⟩
  | case2 => exact nofun
  | case3 front out fates reads _ hout next rest ih =>
      intro h popped hinv
      have hstep := (hinv.discard hout out.reads).keep next (reads + 1)
      rw [List.append_assoc fates] at hstep
      obtain ⟨popped', hq, hrest⟩ := ih h _ hstep
      rw [List.append_assoc, List.append_assoc] at hq
      exact ⟨popped', hq, hrest⟩
  | case4 front rest out fates reads _ _ ih =>
      intro h popped hinv
      obtain ⟨popped', hq, hrest⟩ := ih h _ (hinv.keep front (reads + 1))
      rw [List.append_assoc] at hq
      exact ⟨popped', hq, hrest⟩
  | case5 front rest out fates reads htest =>
      intro h popped hinv
      obtain rfl := Option.some.inj h
      rw [Bool.or_eq_true, not_or, Bool.not_eq_true, Bool.not_eq_true] at htest
      obtain ⟨hsent, hfresh⟩ := htest
      -- the loop test has read the clock once for this request
      have hreads : reads = out.reads + 1 := if_neg (by rw [hsent]; exact Bool.false_ne_true)
      exact ⟨popped, rfl, ⟨hinv.popped, hinv.requests, hinv.countPops, hinv.discarded⟩,
        Or.inr ⟨front, rest, out.reads, rfl, hreads, hsent, hfresh⟩⟩

/-- What a call does to `myQueue` and what it returns, told by the history of its first loop. -/
structure ReadsOutExactly (req : α → Request) (clock : Clock) (myQueue : List α) (released : Released α)
    (w : Walk α) : Prop where
  /-- The first `countPops` requests are removed, and the rest is unchanged. -/
  removed   : w.out.countPops ≤ myQueue.length ∧ released.myQueue = myQueue.drop w.out.countPops
  /-- Each removed request was returned or discarded, in the order of the queue. -/
  accounted : w.fates.map Prod.fst = myQueue.take w.out.countPops
  /-- Those that were not discarded are returned, in the order of the queue. -/
  returned  : released.requests = Gateway.returned w.fates
  inOrder   : released.requests.Sublist (myQueue.take w.out.countPops)
  /-- What was discarded was outdated at the clock reading that discarded it. -/
  discarded : ∀ e t, (e, .discarded t) ∈ w.fates → outdated (clock t) (req e) = true
  stopped   : Stopped req clock w

/-- A call that returns has gone through its first loop, and has popped what that loop counted. -/
theorem getRequests_eq_some {reads : Nat} {myQueue : List α} {released : Released α}
    (h : getRequestsSentToAstraea req clock reads myQueue = some released) :
    ∃ out, readLoop req clock myQueue ⟨[], 0, reads⟩ = some out ∧
      released.requests = out.requests ∧ released.myQueue = myQueue.drop out.countPops := by
  unfold getRequestsSentToAstraea at h
  cases myQueue with
  | nil =>
      obtain rfl := Option.some.inj h
      exact ⟨⟨[], 0, reads⟩, rfl, rfl, rfl⟩
  | cons front rest =>
      obtain ⟨out, hout, hrest⟩ := Option.bind_eq_some_iff.mp h
      rw [popLoop_eq, Option.map_some] at hrest
      obtain rfl := Option.some.inj hrest
      exact ⟨out, hout, rfl, rfl⟩

/-- What a call returns and leaves, from the end of its first loop. -/
theorem getRequests_of_readLoop {reads : Nat} {myQueue : List α} {out : ReadOut α}
    (h : readLoop req clock myQueue ⟨[], 0, reads⟩ = some out) :
    getRequestsSentToAstraea req clock reads myQueue
      = some ⟨out.requests, myQueue.drop out.countPops, out.reads⟩ := by
  unfold getRequestsSentToAstraea
  cases myQueue with
  | nil =>
      obtain rfl := Option.some.inj h
      rfl
  | cons front rest =>
      rw [if_neg (by exact Bool.false_ne_true), h, Option.bind_some, popLoop_eq, Option.map_some]

/-- The read-out loses, duplicates and reorders nothing, as long as its count of pops has no bound. -/
theorem readOut_exact {reads : Nat} {myQueue : List α} {released : Released α}
    (h : getRequestsSentToAstraea req clock reads myQueue = some released) :
    ∃ w, walk req clock myQueue ⟨[], 0, reads⟩ [] = some w ∧
      ReadsOutExactly req clock myQueue released w := by
  obtain ⟨out, hout, hreq, hq⟩ := getRequests_eq_some h
  rw [← walk_out _ _ []] at hout
  obtain ⟨w, hw, rfl⟩ := Option.map_eq_some_iff.mp hout
  refine ⟨w, hw, ?_⟩
  obtain ⟨popped, hpopped, hinv, hstop⟩ := walk_inv hw [] ⟨rfl, rfl, rfl, nofun⟩
  rw [List.nil_append] at hpopped
  have hlen : popped.length = w.out.countPops := by
    rw [← hinv.popped, List.length_map, hinv.countPops]
  have htake : myQueue.take w.out.countPops = popped := by
    rw [hpopped, ← hlen, List.take_left]
  refine ⟨⟨?_, hq⟩, ?_, hreq.trans hinv.requests.symm, ?_, hinv.discarded, hstop⟩
  · rw [hpopped, ← hlen, List.length_append]
    exact Nat.le_add_right _ _
  · rw [htake, hinv.popped]
  · rw [htake, hreq, ← hinv.requests, ← hinv.popped]
    exact List.filter_sublist.map Prod.fst

def requestAt (timestamp : Int) (isSentToAstraea : Bool) : Request :=
  ⟨lit "SELECT", lit "client:6000", timestamp, isSentToAstraea, true⟩

/-- At second 6: an outdated request, a fresh one, and one that is not marked as sent. -/
def mixedQueue : List Request := [requestAt 0 true, requestAt 3 true, requestAt 5 false]

theorem getRequests_mixedQueue : getRequestsSentToAstraea id (Clock.held 6) 0 mixedQueue
    = some ⟨[requestAt 3 true], [requestAt 5 false], 2⟩ := by decide

/-! ## Is everything that is returned valid? -/

/-- Marked as sent, and not outdated. -/
def Valid (now : Int) (r : Request) : Prop := r.isSentToAstraea = true ∧ now - 5 ≤ r.timestamp

/-- **What keeps the untested requests harmless.** Up to the first request that is neither sent nor outdated,
    an outdated request has a valid one behind it (unless it is the last). -/
def OutdatedBeforeValid (req : α → Request) (now : Int) (myQueue : List α) : Prop :=
  ∀ pre front next rest, myQueue = pre ++ front :: next :: rest →
    (∀ r ∈ pre, (req r).isSentToAstraea = true ∨ outdated now (req r) = true) →
    outdated now (req front) = true → Valid now (req next)

variable {now : Int}

theorem not_outdated_iff {r : Request} : outdated now r = false ↔ now - 5 ≤ r.timestamp := by
  unfold outdated
  rw [decide_eq_false_iff_not, Int.not_lt]

theorem outdatedBeforeValid_nil : OutdatedBeforeValid req now [] := by
  intro pre front next rest hq
  simp at hq

theorem outdatedBeforeValid_cons {front : α} {q : List α} :
    OutdatedBeforeValid req now (front :: q) ↔
      (outdated now (req front) = true → ∀ next ∈ q.head?, Valid now (req next)) ∧
      ((req front).isSentToAstraea = true ∨ outdated now (req front) = true →
        OutdatedBeforeValid req now q) := by
  constructor
  · intro h
    refine ⟨fun hout next hnext => ?_, fun hfront pre x next rest hq hpre hout => ?_⟩
    · obtain ⟨rest, rfl⟩ := List.head?_eq_some_iff.mp hnext
      exact h [] front next rest rfl nofun hout
    · refine h (front :: pre) x next rest (by rw [hq, List.cons_append]) ?_ hout
      intro r hr
      rcases List.mem_cons.mp hr with rfl | hr
      · exact hfront
      · exact hpre r hr
  · rintro ⟨hhead, htail⟩ pre x next rest hq hpre hout
    cases pre with
    | nil =>
        obtain ⟨rfl, rfl⟩ := List.cons.inj hq
        exact hhead hout next rfl
    | cons y pre =>
        obtain ⟨rfl, rfl⟩ := List.cons.inj hq
        exact htail (hpre front List.mem_cons_self) pre x next rest rfl
          (fun r hr => hpre r (List.mem_cons_of_mem front hr)) hout

/-- In front of a valid request nothing is asked for. -/
theorem outdatedBeforeValid_cons_valid {front : α} {q : List α} (h : Valid now (req front)) :
    OutdatedBeforeValid req now (front :: q) ↔ OutdatedBeforeValid req now q := by
  rw [outdatedBeforeValid_cons, not_outdated_iff.mpr h.2]
  simp [h.1]

/-- Block by block: a request that is kept alone was tested, one that is kept behind an outdated request was
    not. -/
theorem kept_valid_iff {t t' : Nat} {pre kept rest : List α}
    (hb : Blocks req (Clock.held now) t pre kept t') (he : Ending req (Clock.held now) t' rest)
    (hsafe : ∀ last, rest = [last] → outdated now (req last) = false) :
    (∀ r ∈ kept, Valid now (req r)) ↔ OutdatedBeforeValid req now (pre ++ rest) := by
  induction hb with
  | nil =>
      refine iff_of_true nofun ?_
      rw [List.nil_append]
      cases he with
      | drained => exact outdatedBeforeValid_nil
      | unsent hsent hfresh =>
          rw [Clock.held_apply] at hfresh
          refine outdatedBeforeValid_cons.mpr ⟨?_, ?_⟩
          · rw [hfresh]
            exact nofun
          · rw [hsent, hfresh]
            rintro (hc | hc) <;> cases hc
      | lone hout =>
          rw [Clock.held_apply, hsafe _ rfl] at hout
          cases hout
  | fresh hsent hfresh _ ih =>
      have hvalid : Valid now (req _) := ⟨hsent, not_outdated_iff.mp hfresh⟩
      rw [List.cons_append, outdatedBeforeValid_cons_valid hvalid, ← ih he, List.forall_mem_cons]
      exact and_iff_right hvalid
  | @pair _ _ front next q kept hout _ ih =>
      rw [List.cons_append, List.cons_append, List.forall_mem_cons, ih he, outdatedBeforeValid_cons]
      constructor
      · rintro ⟨hnext, hq⟩
        refine ⟨fun _ x hx => ?_, fun _ => (outdatedBeforeValid_cons_valid hnext).mpr hq⟩
        obtain rfl := Option.some.inj hx
        exact hnext
      · rintro ⟨hhead, htail⟩
        have hnext := hhead hout next rfl
        exact ⟨hnext, (outdatedBeforeValid_cons_valid hnext).mp (htail (Or.inr hout))⟩

/-- **Only valid requests are released, exactly when no outdated request shields an invalid one**: for every
    content of `myQueue` and every clock that stands still, where the read-out does not read an empty
    queue. -/
theorem readOut_valid_iff {reads : Nat} {myQueue : List α} {released : Released α}
    (h : getRequestsSentToAstraea req (Clock.held now) reads myQueue = some released) :
    (∀ r ∈ released.requests, Valid now (req r)) ↔ OutdatedBeforeValid req now myQueue := by
  obtain ⟨out, hout, hreq, _⟩ := getRequests_eq_some h
  obtain ⟨pre, kept, t', rest, rfl, hb, he⟩ := exists_blocks req (Clock.held now) reads myQueue
  rw [readLoop_blocks hb, List.nil_append] at hout
  have hsafe : ∀ last, rest = [last] → outdated now (req last) = false := by
    rintro last rfl
    by_contra hlast
    rw [readLoop_lone (Bool.not_eq_false _ ▸ hlast)] at hout
    cases hout
  have hkept : out.requests = kept := by
    cases he with
    | drained => exact (congrArg ReadOut.requests (Option.some.inj hout)).symm
    | unsent hsent hfresh =>
        rw [readLoop_unsent hsent hfresh] at hout
        exact (congrArg ReadOut.requests (Option.some.inj hout)).symm
    | lone hlast =>
        rw [readLoop_lone hlast] at hout
        cases hout
  rw [hreq, hkept]
  exact kept_valid_iff hb he hsafe

theorem readOut_valid_iff_mixedQueue :
    (∀ r ∈ [requestAt 3 true], Valid 6 r) ↔ OutdatedBeforeValid id 6 mixedQueue :=
  readOut_valid_iff getRequests_mixedQueue

/-- Two outdated requests: the first is discarded, and the second returned untested. -/
theorem readOut_returns_outdated : ∃ released,
    getRequestsSentToAstraea id (Clock.held 6) 0 [requestAt 0 true, requestAt 0 true] = some released ∧
    ∃ r ∈ released.requests, ¬ Valid 6 r := by
  refine ⟨⟨[requestAt 0 true], [], 1⟩, by decide, requestAt 0 true, List.mem_cons_self, ?_⟩
  rintro ⟨_, hfresh⟩
  exact absurd hfresh (by decide)

end Gateway
end AstraeaGateway
