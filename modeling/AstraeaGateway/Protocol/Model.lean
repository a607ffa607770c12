import AstraeaGateway.Gateway.Handlers
import Mathlib.Logic.Function.Basic

/-!
# `Protocol.Model` — gateway, Astraea and clients as one step relation

Any number of requests and releases, interleaved at the steps other parties can see.

* A read handler starts the database task (`flushToTarget` on its own thread) and sends `write(r)`; the
  two go on in either order. The task runs its query (`query`), then pushes (`push`).
* A write handler hands `write(r)` to a detached sender, builds its entry (`stamp`) and pushes it.
* `write(r)` is received by Astraea at some later time (`deliverWrite`), or never (`loseWrite`).
* Astraea may post a release once it has received a write.
* A release handler copies `myQueue` (`copy`), runs the first loop on the copy (`scan`), pops the live
  queue one guarded `pop` at a time, returns (`ret`), and posts its responses one by one (`respond`).
* A posted response reaches its client at some later time (`deliver`), in any order.

Requests are numbered in the order in which their handlers start, releases in the order in which they are
posted. The number of a request is not part of `struct request`; entries carry it so that properties can
name requests, and no step looks at it. `countPops` has no bound here, and the text of a request holds no
NUL: `flushToTarget` copies it with `strcpy`.
-/

namespace AstraeaGateway
namespace Protocol

open Transition Gateway

/-- An entry of `myQueue`, with the number of the request it was pushed for. -/
structure Entry extends Request where
  id : Nat
deriving DecidableEq, Repr

/-- The message `write(r)`. -/
inductive WriteMsg
  | unsent | inFlight | received | failed
deriving DecidableEq, Repr

/-- How far a request is on its way into `myQueue`. -/
inductive Pushing
  | running            -- before the `struct request` is built
  | ready (e : Entry)  -- built
  | pushed
deriving DecidableEq, Repr

/-- A request of a client: what its handler was called with, its message to Astraea, and its push. -/
structure Call where
  readRequest : Bool
  request     : Str
  ipClient    : Str
  write       : WriteMsg
  pushing     : Pushing
deriving DecidableEq, Repr

/-- Where a release stands. `requests` is the list `getRequestsSentToAstraea` returns. -/
inductive Phase
  | inFlight
  | copied (duplicate : List Entry) (since : Int)        -- since: the clock at the copy
  | popping (requests : List Entry) (countPops : Nat)    -- countPops: the pops still to do
  | responding (requests todo : List Entry)
  | finished (requests : List Entry)
deriving DecidableEq, Repr

/-- A release, with the writes Astraea had received when it posted it. -/
structure Release where
  received : List Nat
  phase    : Phase
deriving DecidableEq, Repr

/-- A response handed to `restCallPost`, with the release and the entry it is for. -/
structure Response where
  release : Nat
  entry   : Entry
  post    : Post
deriving DecidableEq, Repr

structure State where
  clock     : Int
  exit      : Option Exit               -- how the gateway process ended, if it did
  calls     : Nat → Option Call
  nextCall  : Nat
  received  : List Nat                  -- the writes Astraea has received, in order
  releases  : Nat → Option Release
  nextRel   : Nat
  myQueue   : List Entry
  popped    : List Entry                -- history: what was popped off `myQueue`, in order
  posted    : List Response             -- history: the responses posted, in order
  inFlight  : List Response
  delivered : List Response             -- history: the responses clients received, in order
  executed  : List (Nat × Str)          -- history: the queries the target database accepted, in order

inductive Event
  | tick (now : Int)
  | startRead (r : Nat) (request ipClient : Str)
  | startWrite (r : Nat) (request ipClient : Str)
  | sendWrite (r : Nat)
  | loseWrite (r : Nat)
  | deliverWrite (r : Nat)
  | query (r : Nat) (outcome : Outcome)
  | stamp (r : Nat)
  | push (r : Nat)
  | postRelease (k : Nat)
  | copy (k : Nat)
  | scan (k : Nat) (clock : Clock)
  | pop (k : Nat)
  | ret (k : Nat)
  | respond (k r : Nat)
  | finish (k : Nat)
  | deliver (resp : Response)

def initial : State :=
  ⟨0, none, fun _ => none, 0, [], fun _ => none, 0, [], [], [], [], [], []⟩

/-- A handler starts with a fresh number. -/
def State.start (s : State) (c : Call) : State :=
  { s with calls := Function.update s.calls s.nextCall (some c), nextCall := s.nextCall + 1 }

def State.setCall (s : State) (r : Nat) (c : Call) : State :=
  { s with calls := Function.update s.calls r (some c) }

/-- Release `k` moves on; what Astraea had received when it posted it stays as it was. -/
def State.goto (s : State) (k : Nat) (received : List Nat) (phase : Phase) : State :=
  { s with releases := Function.update s.releases k (some ⟨received, phase⟩) }

/-- The target database's history after the query of request `r`, whose text is free of NUL. -/
def State.execute (s : State) (r : Nat) (request : Str) (outcome : Outcome) : List (Nat × Str) :=
  if outcome.accepted then s.executed ++ [(r, request)] else s.executed

/-- One step. Steps of the gateway need its process to be running. -/
def step (s : State) : Event → Option State
  | .tick now => if s.clock ≤ now then some { s with clock := now } else none
  | .startRead r request ipClient =>
      if s.exit = none ∧ r = s.nextCall then
        some (s.start ⟨true, request, ipClient, .unsent, .running⟩) else none
  | .startWrite r request ipClient =>
      if s.exit = none ∧ r = s.nextCall then
        some (s.start ⟨false, request, ipClient, .unsent, .running⟩) else none
  | .sendWrite r =>
      match s.calls r with
      | some c => if s.exit = none ∧ c.write = .unsent then
          some (s.setCall r { c with write := .inFlight }) else none
      | none => none
  | .loseWrite r =>
      match s.calls r with
      | some c => if c.write = .inFlight then some (s.setCall r { c with write := .failed }) else none
      | none => none
  | .deliverWrite r =>
      match s.calls r with
      | some c => if c.write = .inFlight then
          some { s.setCall r { c with write := .received } with received := s.received ++ [r] } else none
      | none => none
  | .query r outcome =>
      match s.calls r with
      | some c => if s.exit = none ∧ c.readRequest = true ∧ c.pushing = .running then
          match queryTarget outcome with
          | .ok response =>
              some { s.setCall r { c with pushing := .ready ⟨readEntry response c.ipClient s.clock, r⟩ } with
                executed := s.execute r c.request outcome }
          | .error exit  =>
              some { s with exit := some exit, executed := s.execute r c.request outcome } else none
      | none => none
  | .stamp r =>
      match s.calls r with
      -- `write(r)` is handed to its sender before the entry is built
      | some c => if s.exit = none ∧ c.readRequest = false ∧ c.pushing = .running ∧ c.write ≠ .unsent then
          some (s.setCall r { c with pushing := .ready ⟨writeEntry c.request c.ipClient s.clock, r⟩ })
          else none
      | none => none
  | .push r =>
      match s.calls r with
      | some c =>
          match s.exit, c.pushing with
          | none, .ready e =>
              some { s.setCall r { c with pushing := .pushed } with myQueue := s.myQueue ++ [e] }
          | _, _ => none
      | none => none
  | .postRelease k =>
      if k = s.nextRel ∧ s.received ≠ [] then
        some { s.goto k s.received .inFlight with nextRel := s.nextRel + 1 } else none
  | .copy k =>
      match s.exit, s.releases k with
      | none, some ⟨received, .inFlight⟩ => some (s.goto k received (.copied s.myQueue s.clock))
      | _, _ => none
  | .scan k clock =>
      match s.exit, s.releases k with
      | none, some ⟨received, .copied duplicate since⟩ =>
          if since ≤ clock 0 then
            -- on an empty copy the loop gives what the early return gives: an empty list and no pops
            match readLoop Entry.toRequest clock duplicate ⟨[], 0, 0⟩ with
            | some out => some (s.goto k received (.popping out.requests out.countPops))
            | none     => some { s with exit := some .emptyQueue }
          else none
      | _, _ => none
  | .pop k =>
      match s.exit, s.releases k with
      | none, some ⟨received, .popping requests (n + 1)⟩ =>
          match s.myQueue with
          | []     => some (s.goto k received (.popping requests n))
          | e :: q => some { s.goto k received (.popping requests n) with
              myQueue := q, popped := s.popped ++ [e] }
      | _, _ => none
  | .ret k =>
      match s.exit, s.releases k with
      | none, some ⟨received, .popping requests 0⟩ =>
          some (s.goto k received (.responding requests requests))
      | _, _ => none
  | .respond k r =>
      match s.exit, s.releases k with
      | none, some ⟨received, .responding requests (e :: todo)⟩ =>
          if e.id = r then
            some { s.goto k received (.responding requests todo) with
              posted := s.posted ++ [⟨k, e, answer e.toRequest⟩],
              inFlight := s.inFlight ++ [⟨k, e, answer e.toRequest⟩] }
          else none
      | _, _ => none
  | .finish k =>
      match s.exit, s.releases k with
      | none, some ⟨received, .responding requests []⟩ => some (s.goto k received (.finished requests))
      | _, _ => none
  | .deliver resp =>
      if resp ∈ s.inFlight then
        some { s with inFlight := s.inFlight.erase resp, delivered := s.delivered ++ [resp] } else none

/-- Gateway, Astraea and clients. -/
def system : System State Event := ⟨initial, step⟩

end Protocol
end AstraeaGateway
