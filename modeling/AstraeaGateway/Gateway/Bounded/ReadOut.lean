import AstraeaGateway.Counter
import AstraeaGateway.Gateway.Database
import AstraeaGateway.Gateway.EmptyQueue
import AstraeaGateway.Gateway.Selection

/-!
# `Gateway.Bounded.ReadOut` — the read-out with `countPops` an `int`

`getRequestsSentToAstraea` counts its pops in an `int`. `Gateway.ReadOut` counts them without a bound; here
the counter is the source's, and its overflow a fault. `readLoop_spec`: the two loops do the same until the
count passes `INT_MAX`. So nothing is lost or reordered exactly for queues of which fewer than 2³¹ requests
are taken (`readOut_exact_iff`).
-/

namespace AstraeaGateway
namespace Gateway
namespace Bounded

open Counter (increment increment_cases intMax)

/-- How an operation ends that does not return. -/
inductive Fault
  | exit (exit : Exit)
  | overflow  -- `++` on an `int` that holds `INT_MAX`
deriving DecidableEq, Repr

/-- The state of the first loop: the `list <request>`, `countPops`, and how often the clock has been read. -/
structure ReadOut (α : Type) where
  requests  : List α
  countPops : Int32
  reads     : Nat
deriving DecidableEq, Repr

variable {α : Type} (req : α → Request) (clock : Clock)

/-- The first loop, on what is left of `duplicate`. -/
def readLoop : List α → ReadOut α → Except Fault (ReadOut α)
  | [], out => .ok out
  | front :: rest, out =>
      -- the loop test reads the clock only for a request that is not marked as sent
      let reads := if (req front).isSentToAstraea then out.reads else out.reads + 1
      if (req front).isSentToAstraea || outdated (clock out.reads) (req front) then
        if outdated (clock reads) (req front) then do
          let countPops ← increment .overflow out.countPops
          -- the outdated request is popped, and `front()` is read again without a test
          match rest with
          | []           => .error (.exit .emptyQueue)
          | next :: rest =>
              let countPops ← increment .overflow countPops
              readLoop rest ⟨out.requests ++ [next], countPops, reads + 1⟩
        else do
          let countPops ← increment .overflow out.countPops
          readLoop rest ⟨out.requests ++ [front], countPops, reads + 1⟩
      else .ok { out with reads := reads }

/-- `getRequestsSentToAstraea`, with no concurrent change of `myQueue`. The index of the second loop is an
    `int` below `countPops`, and cannot overflow. -/
def getRequestsSentToAstraea (reads : Nat) (myQueue : List α) : Except Fault (Released α) :=
  if myQueue.isEmpty then .ok ⟨[], myQueue, reads⟩
  else do
    let out ← readLoop req clock myQueue ⟨[], 0, reads⟩
    match popLoop out.countPops.toNatClampNeg myQueue with
    | none         => .error (.exit .emptyQueue)
    | some myQueue => .ok ⟨out.requests, myQueue, out.reads⟩

variable {req clock}

/-! ## Against the loop that counts without a bound -/

/-- `countPops` only grows. -/
theorem countPops_le {q : List α} {out u : Gateway.ReadOut α} (h : Gateway.readLoop req clock q out = some u) :
    out.countPops ≤ u.countPops := by
  obtain ⟨pre, kept, t', rest, rfl, hb, he⟩ := exists_blocks req clock out.reads q
  have hblocks := readLoop_blocks hb rest out.requests out.countPops
  rw [show (⟨out.requests, out.countPops, out.reads⟩ : Gateway.ReadOut α) = out from rfl] at hblocks
  rw [hblocks] at h
  cases he with
  | drained =>
      obtain rfl := Option.some.inj h
      exact Nat.le_add_right _ _
  | unsent hsent hfresh =>
      rw [readLoop_unsent hsent hfresh] at h
      obtain rfl := Option.some.inj h
      exact Nat.le_add_right _ _
  | lone hout =>
      rw [readLoop_lone hout] at h
      cases h

/-- One pop: it is counted, or the count is at its end. -/
theorem pop_cases {c : Int32} {n m : Nat} (hc : c.toInt = n) (hle : n + 1 ≤ m) :
    (∃ c', increment Fault.overflow c = .ok c' ∧ c'.toInt = (n + 1 : Nat)) ∨
    (2 ^ 31 ≤ m ∧ increment Fault.overflow c = .error .overflow) := by
  rcases increment_cases Fault.overflow c with ⟨-, c', hc', hval⟩ | ⟨hmax, herr⟩
  · exact Or.inl ⟨c', hc', by omega⟩
  · refine Or.inr ⟨?_, herr⟩
    unfold intMax at hmax
    omega

/-- **The loops agree up to `INT_MAX`**: where the unbounded loop ends, this one ends in the same way, or
    overflows if the count does not fit. -/
theorem readLoop_spec {q : List α} {out u : Gateway.ReadOut α} (h : Gateway.readLoop req clock q out = some u)
    {c : Int32} (hc : c.toInt = out.countPops) :
    (u.countPops < 2 ^ 31 ∧ ∃ c', readLoop req clock q ⟨out.requests, c, out.reads⟩
        = .ok ⟨u.requests, c', u.reads⟩ ∧ c'.toInt = u.countPops) ∨
    (2 ^ 31 ≤ u.countPops ∧ readLoop req clock q ⟨out.requests, c, out.reads⟩ = .error .overflow) := by
  fun_induction Gateway.readLoop req clock q out generalizing c with
  | case1 out =>
      obtain rfl := Option.some.inj h
      have hlt := c.toInt_lt
      exact Or.inl ⟨by omega, c, rfl, hc⟩
  | case2 => cases h
  | case3 front out reads htest hout next rest ih =>
      have hpops : out.countPops + 2 ≤ u.countPops := countPops_le h
      have hstep : readLoop req clock (front :: next :: rest) ⟨out.requests, c, out.reads⟩
          = (increment .overflow c).bind fun c => (increment .overflow c).bind fun c =>
              readLoop req clock rest ⟨out.requests ++ [next], c, reads + 1⟩ := by
        rw [readLoop, if_pos htest, if_pos hout]
        rfl
      rw [hstep]
      rcases pop_cases hc (Nat.le_of_succ_le hpops) with ⟨c₁, hc₁, hval₁⟩ | ⟨hover, herr⟩
      · rw [hc₁, Except.bind]
        rcases pop_cases hval₁ hpops with ⟨c₂, hc₂, hval₂⟩ | ⟨hover, herr⟩
        · rw [hc₂, Except.bind]
          exact ih h hval₂
        · rw [herr]
          exact Or.inr ⟨hover, rfl⟩
      · rw [herr]
        exact Or.inr ⟨hover, rfl⟩
  | case4 front rest out reads htest hout ih =>
      have hpops : out.countPops + 1 ≤ u.countPops := countPops_le h
      have hstep : readLoop req clock (front :: rest) ⟨out.requests, c, out.reads⟩
          = (increment .overflow c).bind fun c =>
              readLoop req clock rest ⟨out.requests ++ [front], c, reads + 1⟩ := by
        rw [readLoop, if_pos htest, if_neg hout]
        rfl
      rw [hstep]
      rcases pop_cases hc hpops with ⟨c₁, hc₁, hval₁⟩ | ⟨hover, herr⟩
      · rw [hc₁, Except.bind]
        exact ih h hval₁
      · rw [herr]
        exact Or.inr ⟨hover, rfl⟩
  | case5 front rest out reads htest =>
      obtain rfl := Option.some.inj h
      have hlt := c.toInt_lt
      have hstop : readLoop req clock (front :: rest) ⟨out.requests, c, out.reads⟩
          = .ok ⟨out.requests, c, reads⟩ := by
        rw [readLoop, if_neg htest]
      have hfits : out.countPops < 2 ^ 31 := by omega
      exact Or.inl ⟨hfits, c, hstop, hc⟩

/-- The loop's result with its count as a number. -/
def ReadOut.unbounded (out : ReadOut α) : Gateway.ReadOut α :=
  ⟨out.requests, out.countPops.toNatClampNeg, out.reads⟩

/-- **A call against the one that counts without a bound.** -/
theorem getRequests_spec {reads : Nat} {myQueue : List α} {u : Gateway.ReadOut α}
    (h : Gateway.readLoop req clock myQueue ⟨[], 0, reads⟩ = some u) :
    (u.countPops < 2 ^ 31 ∧ (∃ out, readLoop req clock myQueue ⟨[], 0, reads⟩ = .ok out ∧ out.unbounded = u) ∧
      getRequestsSentToAstraea req clock reads myQueue
        = .ok ⟨u.requests, myQueue.drop u.countPops, u.reads⟩) ∨
    (2 ^ 31 ≤ u.countPops ∧ getRequestsSentToAstraea req clock reads myQueue = .error .overflow) := by
  rcases readLoop_spec h (c := 0) rfl with ⟨hlt, c, hread, hc⟩ | ⟨hge, hread⟩
  · have hpops : c.toNatClampNeg = u.countPops := by
      rw [← Int32.toNat_toInt, hc, Int.toNat_natCast]
    have hunbounded : (⟨u.requests, c, u.reads⟩ : ReadOut α).unbounded = u := by
      rw [ReadOut.unbounded, hpops]
    refine Or.inl ⟨hlt, ⟨_, hread, hunbounded⟩, ?_⟩
    unfold getRequestsSentToAstraea
    cases myQueue with
    | nil =>
        obtain rfl := Option.some.inj h
        rfl
    | cons r q =>
        rw [if_neg (by exact Bool.false_ne_true), hread, ← hpops]
        simp only [bind, Except.bind, popLoop_eq]
  · refine Or.inr ⟨hge, ?_⟩
    unfold getRequestsSentToAstraea
    cases myQueue with
    | nil =>
        obtain rfl := Option.some.inj h
        exact absurd hge (Nat.not_le_of_gt (Nat.two_pow_pos 31))
    | cons r q =>
        rw [if_neg (by exact Bool.false_ne_true), hread]
        rfl

/-! ## When the count fits -/

/-- **What `countPops` can count.** Whatever the loop goes through block by block, it has fewer than 2³¹
    requests. -/
def FewTaken (req : α → Request) (clock : Clock) (reads : Nat) (myQueue : List α) : Prop :=
  ∀ pre kept t rest, myQueue = pre ++ rest → Blocks req clock reads pre kept t → pre.length < 2 ^ 31

theorem fewTaken_iff {reads : Nat} {myQueue : List α} {u : Gateway.ReadOut α}
    (h : Gateway.readLoop req clock myQueue ⟨[], 0, reads⟩ = some u) :
    FewTaken req clock reads myQueue ↔ u.countPops < 2 ^ 31 := by
  constructor
  · intro hfew
    obtain ⟨pre, kept, t, rest, hq, hb, ⟨_, _, _, hnone⟩ | ⟨n, _, hsome⟩⟩ := readLoop_result req clock reads myQueue
    · rw [hnone] at h
      cases h
    · rw [hsome] at h
      obtain rfl := Option.some.inj h
      exact hfew pre kept t rest hq hb
  · rintro hlt pre kept t rest rfl hb
    -- the loop has counted the blocks when it comes to what is behind them
    rw [readLoop_blocks hb rest [] 0, Nat.zero_add] at h
    have hle : pre.length ≤ u.countPops := countPops_le h
    omega

/-- A call returns, and has removed, returned and discarded what its history says. -/
def ReadsOut (req : α → Request) (clock : Clock) (reads : Nat) (myQueue : List α) : Prop :=
  ∃ out released w, readLoop req clock myQueue ⟨[], 0, reads⟩ = .ok out ∧
    getRequestsSentToAstraea req clock reads myQueue = .ok released ∧
    walk req clock myQueue ⟨[], 0, reads⟩ [] = some w ∧ w.out = out.unbounded ∧
    ReadsOutExactly req clock myQueue released w

/-- **The read-out loses, duplicates and reorders nothing exactly while `countPops` can count**, for every
    content of `myQueue` and every clock for which it does not read an empty queue. -/
theorem readOut_exact_iff {reads : Nat} {myQueue : List α} (hsafe : ¬ EndsInLoneOutdated req clock reads myQueue) :
    ReadsOut req clock reads myQueue ↔ FewTaken req clock reads myQueue := by
  obtain ⟨u, hu⟩ := Option.ne_none_iff_exists'.mp (mt readLoop_eq_none_iff.mp hsafe)
  rw [fewTaken_iff hu]
  rcases getRequests_spec hu with ⟨hlt, ⟨out, hread, hout⟩, hcall⟩ | ⟨hge, hcall⟩
  · refine iff_of_true ?_ hlt
    obtain ⟨w, hw, hexact⟩ := readOut_exact (getRequests_of_readLoop hu)
    refine ⟨out, _, w, hread, hcall, hw, ?_, hexact⟩
    have hwalk : (walk req clock myQueue ⟨[], 0, reads⟩ []).map Walk.out = _ := walk_out myQueue ⟨[], 0, reads⟩ []
    rw [hw, hu] at hwalk
    rw [hout]
    exact Option.some.inj hwalk
  · refine iff_of_false ?_ (Nat.not_lt.mpr hge)
    rintro ⟨_, released, _, _, hreturns, -⟩
    rw [hcall] at hreturns
    cases hreturns

theorem readOut_exact_iff_mixedQueue : ¬ EndsInLoneOutdated id (Clock.held 6) 0 mixedQueue ∧
    (ReadsOut id (Clock.held 6) 0 mixedQueue ↔ FewTaken id (Clock.held 6) 0 mixedQueue) := by
  have hsafe : ¬ EndsInLoneOutdated id (Clock.held 6) 0 mixedQueue := mt readLoop_eq_none_iff.mpr (by decide)
  exact ⟨hsafe, readOut_exact_iff hsafe⟩

/-- 2³¹ requests of this second. -/
def longQueue : List Request := List.replicate (2 ^ 31) (requestAt 6 true)

/-- All of them are taken, and `countPops` cannot count them. -/
theorem readOut_overflows : ¬ EndsInLoneOutdated id (Clock.held 6) 0 longQueue ∧
    ¬ ReadsOut id (Clock.held 6) 0 longQueue := by
  have hread : Gateway.readLoop id (Clock.held 6) longQueue ⟨[], 0, 0⟩
      = some ⟨longQueue, longQueue.length, 0 + longQueue.length⟩ := by
    apply readLoop_of_fresh
    · intro r hr
      rw [List.eq_of_mem_replicate hr]
      rfl
    · intro n _ _ r hr
      rw [List.eq_of_mem_replicate hr]
      show outdated 6 (requestAt 6 true) = false
      decide
  constructor
  · intro hlone
    rw [readLoop_eq_none_iff.mpr hlone] at hread
    cases hread
  · rintro ⟨_, released, _, _, hreturns, -⟩
    rcases getRequests_spec hread with ⟨hlt, -⟩ | ⟨-, hover⟩
    · exact absurd hlt (by rw [longQueue, List.length_replicate]; exact Nat.lt_irrefl _)
    · rw [hover] at hreturns
      cases hreturns

end Bounded
end Gateway
end AstraeaGateway
