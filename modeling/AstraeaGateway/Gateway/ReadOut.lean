import AstraeaGateway.Clock
import AstraeaGateway.Data
import Mathlib.Data.List.Basic

/-!
# `Gateway.ReadOut` — `getRequestsSentToAstraea`

The release handler reads out `myQueue` in two loops: the first walks a copy of the queue and collects
requests, counting its pops; the second pops that many entries off `myQueue` itself.

Queue entries have a type `α` of their own, with a projection `req` to the `struct request` in them: the
code sees an entry only through `req`. `none` is an execution that calls `front()` or `pop()` on an empty
queue. `countPops`, an `int` in the source, has no bound here; `Gateway.Bounded.ReadOut` has the `int`.
-/

namespace AstraeaGateway
namespace Gateway

/-- `r.timestamp < time(nullptr) - 5`, with `now` the value of the clock. -/
def outdated (now : Int) (r : Request) : Bool := decide (r.timestamp < now - 5)

/-- The state of the first loop apart from the copy: the `list <request>`, `countPops`, and how often the
    clock has been read. -/
structure ReadOut (α : Type) where
  requests  : List α
  countPops : Nat
  reads     : Nat
deriving DecidableEq, Repr

variable {α : Type} (req : α → Request) (clock : Clock)

/-- The first loop, on what is left of `duplicate`. -/
def readLoop : List α → ReadOut α → Option (ReadOut α)
  | [], out => some out
  | front :: rest, out =>
      -- the loop test reads the clock only for a request that is not marked as sent
      let reads := if (req front).isSentToAstraea then out.reads else out.reads + 1
      if (req front).isSentToAstraea || outdated (clock out.reads) (req front) then
        if outdated (clock reads) (req front) then
          -- the outdated request is popped, and `front()` is read again without a test
          match rest with
          | []           => none
          | next :: rest => readLoop rest ⟨out.requests ++ [next], out.countPops + 2, reads + 1⟩
        else readLoop rest ⟨out.requests ++ [front], out.countPops + 1, reads + 1⟩
      else some { out with reads := reads }

/-- `queue::pop`. -/
def pop? : List α → Option (List α)
  | []     => none
  | _ :: q => some q

/-- The second loop: `countPops` times, pop `myQueue` unless it is empty. -/
def popLoop : Nat → List α → Option (List α)
  | 0, myQueue     => some myQueue
  | n + 1, myQueue => if myQueue.isEmpty then popLoop n myQueue else (pop? myQueue).bind (popLoop n)

/-- What a call returns and leaves behind. -/
structure Released (α : Type) where
  requests : List α
  myQueue  : List α
  reads    : Nat
deriving DecidableEq, Repr

/-- `getRequestsSentToAstraea`, with no concurrent change of `myQueue`; `reads` clock readings were taken
    before the call. -/
def getRequestsSentToAstraea (reads : Nat) (myQueue : List α) : Option (Released α) :=
  if myQueue.isEmpty then some ⟨[], myQueue, reads⟩
  else
    (readLoop req clock myQueue ⟨[], 0, reads⟩).bind fun out =>
      (popLoop out.countPops myQueue).map fun myQueue => ⟨out.requests, myQueue, out.reads⟩

theorem outdated_mono {t t' : Nat} {r : Request} (hle : t ≤ t') (h : outdated (clock t) r = true) :
    outdated (clock t') r = true := by
  unfold outdated at h ⊢
  have hclock := clock.mono hle
  rw [decide_eq_true_eq] at h ⊢
  omega

/-! ## The second loop -/

/-- The second loop never pops an empty queue: it drops `countPops` entries, or all there are. -/
theorem popLoop_eq (n : Nat) (myQueue : List α) : popLoop n myQueue = some (myQueue.drop n) := by
  induction n generalizing myQueue with
  | zero => rfl
  | succ n ih =>
      cases myQueue with
      | nil => simp [popLoop, ih]
      | cons r q => simp [popLoop, pop?, ih]

/-! ## The first loop, block by block

The loop consumes its copy in blocks: a sent request that is not outdated, which it keeps; or an outdated
request together with whatever stands behind it, of which it keeps the latter unchecked. `Blocks` is this
grammar, with the clock readings threaded through; `exists_blocks` says how the consumed part ends. -/

/-- The clock readings it takes to find a request outdated: one for the loop test unless the request is
    marked as sent, and one in the body. -/
def discardReads (r : Request) : Nat := if r.isSentToAstraea then 1 else 2

/-- `Blocks req clock t q kept t'`: starting at reading `t`, the loop consumes exactly `q`, keeps `kept`,
    and is about to take reading `t'`. -/
inductive Blocks (req : α → Request) (clock : Clock) : Nat → List α → List α → Nat → Prop
  | nil {t : Nat} : Blocks req clock t [] [] t
  | fresh {t t' : Nat} {front : α} {q kept : List α}
      (hsent : (req front).isSentToAstraea = true) (hfresh : outdated (clock t) (req front) = false)
      (hq : Blocks req clock (t + 1) q kept t') : Blocks req clock t (front :: q) (front :: kept) t'
  | pair {t t' : Nat} {front next : α} {q kept : List α}
      (hout : outdated (clock t) (req front) = true)
      (hq : Blocks req clock (t + discardReads (req front)) q kept t') :
      Blocks req clock t (front :: next :: q) (next :: kept) t'

/-- How a copy can go on where the loop has no further block: it is empty, its front is neither sent nor
    outdated, or its front is outdated and the last one. -/
inductive Ending (req : α → Request) (clock : Clock) (t : Nat) : List α → Prop
  | drained : Ending req clock t []
  | unsent {front : α} {q : List α} (hsent : (req front).isSentToAstraea = false)
      (hfresh : outdated (clock t) (req front) = false) : Ending req clock t (front :: q)
  | lone {last : α} (hout : outdated (clock t) (req last) = true) : Ending req clock t [last]

variable {req clock}

/-- Every queue is some blocks and an ending. -/
theorem exists_blocks (req : α → Request) (clock : Clock) : ∀ (t : Nat) (q : List α),
    ∃ pre kept t' rest, q = pre ++ rest ∧ Blocks req clock t pre kept t' ∧ Ending req clock t' rest
  | t, [] => ⟨[], [], t, [], rfl, Blocks.nil, Ending.drained⟩
  | t, front :: q => by
      by_cases hout : outdated (clock t) (req front) = true
      · -- an outdated front takes the next entry along, and is lone without one
        cases q with
        | nil => exact ⟨[], [], t, [front], rfl, Blocks.nil, Ending.lone hout⟩
        | cons next q =>
            obtain ⟨pre, kept, t', rest, rfl, hb, he⟩ :=
              exists_blocks req clock (t + discardReads (req front)) q
            exact ⟨front :: next :: pre, next :: kept, t', rest, rfl, Blocks.pair hout hb, he⟩
      · rw [Bool.not_eq_true] at hout
        by_cases hsent : (req front).isSentToAstraea = true
        · obtain ⟨pre, kept, t', rest, rfl, hb, he⟩ := exists_blocks req clock (t + 1) q
          exact ⟨front :: pre, front :: kept, t', rest, rfl, Blocks.fresh hsent hout hb, he⟩
        · rw [Bool.not_eq_true] at hsent
          exact ⟨[], [], t, front :: q, rfl, Blocks.nil, Ending.unsent hsent hout⟩

/-- One block of the first kind. -/
theorem readLoop_fresh {front : α} {q : List α} {out : ReadOut α}
    (hsent : (req front).isSentToAstraea = true)
    (hfresh : outdated (clock out.reads) (req front) = false) :
    readLoop req clock (front :: q) out
      = readLoop req clock q ⟨out.requests ++ [front], out.countPops + 1, out.reads + 1⟩ := by
  cases q <;> simp [readLoop, hsent, hfresh]

/-- The body is entered for an outdated front, and finds it outdated again: the clock does not go back. -/
theorem readLoop_pair {front next : α} {q : List α} {out : ReadOut α}
    (hout : outdated (clock out.reads) (req front) = true) :
    readLoop req clock (front :: next :: q) out
      = readLoop req clock q
          ⟨out.requests ++ [next], out.countPops + 2, out.reads + discardReads (req front)⟩ := by
  rw [readLoop]
  -- an unsent front is read by the loop test as well, which finds it outdated one reading earlier
  cases hsent : (req front).isSentToAstraea with
  | true => simp [hout, hsent, discardReads]
  | false => simp [hout, hsent, discardReads, outdated_mono clock (Nat.le_succ out.reads) hout]

/-- The loop goes through its blocks. -/
theorem readLoop_blocks {t t' : Nat} {pre kept : List α} (hb : Blocks req clock t pre kept t')
    (rest acc : List α) (n : Nat) :
    readLoop req clock (pre ++ rest) ⟨acc, n, t⟩
      = readLoop req clock rest ⟨acc ++ kept, n + pre.length, t'⟩ := by
  induction hb generalizing acc n with
  | nil => rw [List.nil_append, List.append_nil, List.length_nil, Nat.add_zero]
  | fresh hsent hfresh _ ih =>
      rw [List.cons_append, readLoop_fresh hsent hfresh, ih]
      simp [Nat.add_comm, Nat.add_left_comm]
  | pair hout _ ih =>
      rw [List.cons_append, List.cons_append, readLoop_pair hout, ih]
      simp [Nat.add_comm, Nat.add_left_comm]

theorem readLoop_unsent {front : α} {q : List α} {out : ReadOut α}
    (hsent : (req front).isSentToAstraea = false)
    (hfresh : outdated (clock out.reads) (req front) = false) :
    readLoop req clock (front :: q) out = some { out with reads := out.reads + 1 } := by
  cases q <;> simp [readLoop, hsent, hfresh]

theorem readLoop_lone {last : α} {out : ReadOut α}
    (hout : outdated (clock out.reads) (req last) = true) : readLoop req clock [last] out = none := by
  rw [readLoop]
  cases hsent : (req last).isSentToAstraea with
  | true => simp [hout]
  | false => simp [hout, outdated_mono clock (Nat.le_succ out.reads) hout]

theorem Blocks.sublist {t t' : Nat} {pre kept : List α} (hb : Blocks req clock t pre kept t') :
    kept.Sublist pre := by
  induction hb with
  | nil => exact List.Sublist.slnil
  | fresh _ _ _ ih => exact ih.cons_cons _
  | pair _ _ ih => exact (ih.cons_cons _).cons _

/-- **How the loop can end**: `none` in front of a lone outdated request, and otherwise with what its
    blocks keep. -/
theorem readLoop_result (req : α → Request) (clock : Clock) (t : Nat) (q : List α) : ∃ pre kept t' rest,
    q = pre ++ rest ∧ Blocks req clock t pre kept t' ∧
    ((∃ last, rest = [last] ∧ outdated (clock t') (req last) = true ∧
        readLoop req clock q ⟨[], 0, t⟩ = none) ∨
     ∃ reads, t' ≤ reads ∧ readLoop req clock q ⟨[], 0, t⟩ = some ⟨kept, pre.length, reads⟩) := by
  obtain ⟨pre, kept, t', rest, rfl, hb, he⟩ := exists_blocks req clock t q
  refine ⟨pre, kept, t', rest, rfl, hb, ?_⟩
  rw [readLoop_blocks hb rest [] 0, List.nil_append, Nat.zero_add]
  cases he with
  | drained => exact Or.inr ⟨t', Nat.le_refl _, rfl⟩
  | unsent hsent hfresh => exact Or.inr ⟨t' + 1, Nat.le_succ _, readLoop_unsent hsent hfresh⟩
  | lone hout => exact Or.inl ⟨_, rfl, hout, readLoop_lone hout⟩

/-- The requests returned are a subsequence of the first `countPops` of the copy. -/
theorem readLoop_sublist {q : List α} {t : Nat} {out : ReadOut α}
    (h : readLoop req clock q ⟨[], 0, t⟩ = some out) :
    out.countPops ≤ q.length ∧ out.requests.Sublist (q.take out.countPops) := by
  obtain ⟨pre, kept, t', rest, rfl, hb, hnone | ⟨reads, _, hsome⟩⟩ :=
    readLoop_result req clock t q
  · obtain ⟨last, _, _, hnone⟩ := hnone
    rw [hnone] at h
    cases h
  · rw [hsome] at h
    obtain rfl := Option.some.inj h
    refine ⟨by simp, ?_⟩
    show kept.Sublist ((pre ++ rest).take pre.length)
    rw [List.take_left']
    · exact hb.sublist
    · rfl

/-- Sent requests none of which is outdated are one block each. -/
theorem blocks_of_fresh {q : List α} {t : Nat} (hsent : ∀ r ∈ q, (req r).isSentToAstraea = true)
    (hfresh : ∀ n, t ≤ n → n < t + q.length → ∀ r ∈ q, outdated (clock n) (req r) = false) :
    Blocks req clock t q q (t + q.length) := by
  induction q generalizing t with
  | nil => exact Blocks.nil
  | cons r q ih =>
      have hlen : t + (r :: q).length = t + 1 + q.length := by rw [List.length_cons]; omega
      rw [hlen]
      refine Blocks.fresh (hsent r List.mem_cons_self)
        (hfresh t (Nat.le_refl t) (by omega) r List.mem_cons_self) (ih ?_ ?_)
      · intro r' hr'
        exact hsent r' (List.mem_cons_of_mem r hr')
      · intro n htn hn r' hr'
        exact hfresh n (by omega) (by omega) r' (List.mem_cons_of_mem r hr')

/-- **Fresh queues are read out whole**, one clock reading a request. -/
theorem readLoop_of_fresh {q : List α} {t : Nat} (hsent : ∀ r ∈ q, (req r).isSentToAstraea = true)
    (hfresh : ∀ n, t ≤ n → n < t + q.length → ∀ r ∈ q, outdated (clock n) (req r) = false) :
    readLoop req clock q ⟨[], 0, t⟩ = some ⟨q, q.length, t + q.length⟩ := by
  have h := readLoop_blocks (blocks_of_fresh hsent hfresh) [] [] 0
  rw [List.append_nil, List.nil_append, Nat.zero_add] at h
  rw [h]
  rfl

theorem getRequests_of_fresh {q : List α} {t : Nat} (hsent : ∀ r ∈ q, (req r).isSentToAstraea = true)
    (hfresh : ∀ n, t ≤ n → n < t + q.length → ∀ r ∈ q, outdated (clock n) (req r) = false) :
    getRequestsSentToAstraea req clock t q = some ⟨q, [], t + q.length⟩ := by
  unfold getRequestsSentToAstraea
  cases q with
  | nil => rfl
  | cons r q =>
      rw [readLoop_of_fresh hsent hfresh]
      simp [popLoop_eq]

end Gateway
end AstraeaGateway
