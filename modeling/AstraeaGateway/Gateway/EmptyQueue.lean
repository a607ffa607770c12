import AstraeaGateway.Gateway.ReadOut

/-!
# `Gateway.EmptyQueue` — when the read-out touches an empty queue

The loop of `getRequestsSentToAstraea` tests for an empty copy once per iteration, but after discarding an
outdated request it reads and pops the next one without a test. `readOut_safe_iff` says exactly for which
queues that goes wrong; `readOut_safe_iff_even` is the same for the queues the gateway can hold (every
entry marked as sent) and a clock that stands still during the call: the run of outdated requests at the
end has odd length.
-/

namespace AstraeaGateway
namespace Gateway

variable {α : Type} {req : α → Request} {clock : Clock}

/-- **The pattern that goes wrong.** From the front, the queue splits into sent requests that are not
    outdated and pairs of an outdated request with whatever follows it, up to one last request, outdated;
    each request is judged at the clock reading whose turn it is. -/
def EndsInLoneOutdated (req : α → Request) (clock : Clock) (reads : Nat) (myQueue : List α) : Prop :=
  ∃ pre kept t last, myQueue = pre ++ [last] ∧ Blocks req clock reads pre kept t ∧
    outdated (clock t) (req last) = true

/-- The second loop adds no failure to those of the first. -/
theorem getRequests_eq_none_iff {reads : Nat} {myQueue : List α} :
    getRequestsSentToAstraea req clock reads myQueue = none
      ↔ readLoop req clock myQueue ⟨[], 0, reads⟩ = none := by
  unfold getRequestsSentToAstraea
  cases myQueue with
  | nil => simp [readLoop]
  | cons r q =>
      cases readLoop req clock (r :: q) ⟨[], 0, reads⟩ with
      | none => simp
      | some out => simp [popLoop_eq]

theorem readLoop_eq_none_iff {reads : Nat} {myQueue : List α} :
    readLoop req clock myQueue ⟨[], 0, reads⟩ = none
      ↔ EndsInLoneOutdated req clock reads myQueue := by
  constructor
  · intro hnone
    obtain ⟨pre, kept, t, rest, rfl, hb, ⟨last, rfl, hout, _⟩ | ⟨n, _, hsome⟩⟩ :=
      readLoop_result req clock reads myQueue
    · exact ⟨pre, kept, t, last, rfl, hb, hout⟩
    · rw [hsome] at hnone
      cases hnone
  · rintro ⟨pre, kept, t, last, rfl, hb, hout⟩
    rw [readLoop_blocks hb]
    exact readLoop_lone hout

/-- **The read-out never touches an empty queue exactly when the pattern does not occur**: for every
    content of `myQueue` and every clock, `getRequestsSentToAstraea` returns (and has called `front()` and
    `pop()` on non-empty queues only) if and only if the queue does not end in a lone outdated request. -/
theorem readOut_safe_iff (req : α → Request) (clock : Clock) (reads : Nat) (myQueue : List α) :
    (∃ out, getRequestsSentToAstraea req clock reads myQueue = some out)
      ↔ ¬ EndsInLoneOutdated req clock reads myQueue := by
  rw [← readLoop_eq_none_iff, ← getRequests_eq_none_iff]
  exact Option.ne_none_iff_exists'.symm

/-- A request six seconds old, alone in the queue: it is discarded, and `front()` is read again. -/
theorem readOut_touches_empty :
    getRequestsSentToAstraea id (Clock.held 6) 0 [⟨lit "", lit "client:6000", 0, true, true⟩] = none := by
  decide

/-! ## All entries sent, and a clock that stands still

Then the position of a request alone decides: the loop is at the end of a block after every request that
is not outdated, so only the outdated requests behind the last such one matter. -/

theorem Blocks.append {t t' t'' : Nat} {q q' kept kept' : List α} (h : Blocks req clock t q kept t')
    (h' : Blocks req clock t' q' kept' t'') : Blocks req clock t (q ++ q') (kept ++ kept') t'' := by
  induction h with
  | nil => exact h'
  | fresh hsent hfresh _ ih => exact Blocks.fresh hsent hfresh (ih h')
  | pair hout _ ih => exact Blocks.pair hout (ih h')

variable {now : Int}

/-- What holds of the last request of a queue holds of the last one behind its front. -/
theorem forall_getLast?_tail {P : α → Prop} {front : α} {q : List α}
    (h : ∀ r ∈ (front :: q).getLast?, P r) : ∀ r ∈ q.getLast?, P r := by
  intro r hr
  cases q with
  | nil => simp at hr
  | cons next q => exact h r (by rwa [List.getLast?_cons_cons])

/-- A queue whose last request is not outdated is consumed whole. -/
theorem blocks_of_fresh_end : ∀ (t : Nat) (q : List α), (∀ r ∈ q, (req r).isSentToAstraea = true) →
    (∀ r ∈ q.getLast?, outdated now (req r) = false) → ∃ kept t', Blocks req (Clock.held now) t q kept t'
  | t, [], _, _ => ⟨[], t, Blocks.nil⟩
  | t, front :: q, hsent, hlast => by
      have hsentq : ∀ r ∈ q, (req r).isSentToAstraea = true :=
        fun r hr => hsent r (List.mem_cons_of_mem front hr)
      -- either way the queue behind the block still ends in a request that is not outdated
      cases hout : outdated now (req front) with
      | false =>
          obtain ⟨kept, t', hb⟩ := blocks_of_fresh_end (t + 1) q hsentq (forall_getLast?_tail hlast)
          exact ⟨front :: kept, t', Blocks.fresh (hsent front List.mem_cons_self) hout hb⟩
      | true =>
          cases q with
          | nil =>
              -- an outdated front cannot be the last request
              rw [hlast front rfl] at hout
              cases hout
          | cons next q =>
              have hlastq : ∀ r ∈ q.getLast?, outdated now (req r) = false :=
                forall_getLast?_tail (forall_getLast?_tail hlast)
              obtain ⟨kept, t', hb⟩ := blocks_of_fresh_end (t + discardReads (req front)) q
                (fun r hr => hsentq r (List.mem_cons_of_mem next hr)) hlastq
              exact ⟨next :: kept, t', Blocks.pair hout hb⟩

/-- An even run of outdated requests is consumed in pairs. -/
theorem blocks_of_even_run : ∀ (t : Nat) (q : List α), (∀ r ∈ q, outdated now (req r) = true) →
    q.length % 2 = 0 → ∃ kept t', Blocks req (Clock.held now) t q kept t'
  | t, [], _, _ => ⟨[], t, Blocks.nil⟩
  | _, [_], _, heven => by simp at heven
  | t, front :: next :: q, hout, heven => by
      have hq : ∀ r ∈ q, outdated now (req r) = true :=
        fun r hr => hout r (List.mem_cons_of_mem front (List.mem_cons_of_mem next hr))
      have hlen : q.length % 2 = 0 := by
        rw [List.length_cons, List.length_cons] at heven
        omega
      obtain ⟨kept, t', hb⟩ := blocks_of_even_run (t + discardReads (req front)) q hq hlen
      exact ⟨next :: kept, t', Blocks.pair (hout front List.mem_cons_self) hb⟩

/-- **In the states the gateway can reach** (every entry marked as sent), and with the clock standing
    still: split the queue behind its last request that is not outdated. The read-out is safe exactly when
    the run of outdated requests behind it has even length. -/
theorem readOut_safe_iff_even {pre run : List α} (reads : Nat)
    (hsent : ∀ r ∈ pre, (req r).isSentToAstraea = true)
    (hpre : ∀ r ∈ pre.getLast?, outdated now (req r) = false)
    (hrun : ∀ r ∈ run, outdated now (req r) = true) :
    (∃ out, getRequestsSentToAstraea req (Clock.held now) reads (pre ++ run) = some out)
      ↔ run.length % 2 = 0 := by
  obtain ⟨kept, t, hb⟩ := blocks_of_fresh_end reads pre hsent hpre
  rw [readOut_safe_iff]
  constructor
  · -- an odd run is an even one and a lone last request
    intro hsafe
    by_contra hodd
    rcases List.eq_nil_or_concat run with rfl | ⟨run', last, rfl⟩
    · exact hodd rfl
    · rw [List.concat_eq_append] at hrun hsafe hodd
      have heven : run'.length % 2 = 0 := by
        rw [List.length_append, List.length_singleton] at hodd
        omega
      obtain ⟨kept', t', hb'⟩ := blocks_of_even_run t run'
        (fun r hr => hrun r (List.mem_append_left _ hr)) heven
      refine hsafe ⟨pre ++ run', kept ++ kept', t', last, by rw [List.append_assoc], hb.append hb', ?_⟩
      exact hrun last (List.mem_append_right _ List.mem_cons_self)
  · -- an even run is consumed whole, and the loop ends on an empty copy
    intro heven hlone
    obtain ⟨kept', t', hb'⟩ := blocks_of_even_run t run hrun heven
    have hnone := readLoop_eq_none_iff.mpr hlone
    rw [← List.append_nil (pre ++ run), readLoop_blocks (hb.append hb')] at hnone
    cases hnone

end Gateway
end AstraeaGateway
