import AstraeaGateway.Gateway.Database
import AstraeaGateway.Gateway.Metrics
import AstraeaGateway.Gateway.ReadOut
import AstraeaGateway.Transition

/-!
# `Gateway.Handlers` — the gateway's operations, executed one at a time

The three handlers of `gateway_api` that touch the queue, as functions on the globals of `gateway.cpp`.
The clock readings of a whole run are one sequence; `reads` counts those taken so far. `effects` is a
history of what the handlers did that an observer could tell apart. The counters are unbounded here; the
handlers on the `int`s of the source, where an overflow is a fault, are in `Gateway.Bounded.Handlers`.
-/

namespace AstraeaGateway
namespace Gateway

open Transition

inductive Effect
  | push (r : Request)    -- `myQueue.push`
  | postJson (p : Post)   -- to Astraea, through `restCallPostJson` or `restCallPostJsonAsync`
  | post (p : Post)       -- to a client, through `restCallPost`
  | recordTime            -- a call of `record_time`
deriving DecidableEq, Repr

structure State where
  metrics   : Metrics
  notDone   : Bool
  nRequests : Int
  release   : Int
  myQueue   : List Request
  reads     : Nat
  effects   : List Effect
deriving DecidableEq, Repr

def initial : State := ⟨Metrics.initial, true, 0, 0, [], 0, []⟩

/-- `MAX_REQ` -/
def maxReq : Int := 90000

def writeUrl : Str := lit "astraea:5000/write"

/-- The message to the client for a request that is released. -/
def answer (r : Request) : Post :=
  if r.readRequest then ⟨r.ipClient ++ lit "/response", [(lit "response", lit "OK")]⟩
  -- `string response;` stays empty: the call of the database is commented out
  else ⟨r.ipClient ++ lit "/response", [(lit "response", [])]⟩

/-- `myQueue.push(request)` -/
def push (r : Request) (s : State) : State :=
  { s with myQueue := s.myQueue ++ [r], effects := s.effects ++ [.push r] }

/-- `flushToTarget`, with what the MySQL calls do. -/
def flushToTarget (clock : Clock) (outcome : Outcome) (ipClient : Str) (s : State) :
    Except Exit (Str × State) :=
  match queryTarget outcome with
  | .error exit   => .error exit
  | .ok response  =>
      .ok (response, push (readEntry response ipClient (clock s.reads)) { s with reads := s.reads + 1 })

/-- `read_request_from_client`. The task started by `std::async` is finished before the handler returns,
    and the handler does not look at its result. -/
def readRequestFromClient (clock : Clock) (request ipClient : Str) (outcome : Outcome) (s : State) :
    Except Exit State :=
  let s := { s with nRequests := s.nRequests + 1 }
  match flushToTarget clock outcome ipClient s with
  | .error exit   => .error exit
  | .ok (_, s)    =>
      let params := [(lit "ip_client", ipClient), (lit "query", request)]
      let s := { s with effects := s.effects ++ [Effect.postJson ⟨writeUrl, params⟩] }
      .ok (if s.nRequests > maxReq ∧ s.notDone then
        { s with notDone := false, metrics := recordRequests s.metrics } else s)

/-- `write_request_from_client` -/
def writeRequestFromClient (clock : Clock) (request ipClient : Str) (s : State) : State :=
  let params := [(lit "ip_client", ipClient), (lit "request", request)]
  let s := { s with effects := s.effects ++ [Effect.postJson ⟨writeUrl, params⟩] }
  push (writeEntry request ipClient (clock s.reads)) { s with reads := s.reads + 1 }

/-- One iteration of the loop of `release`: post the response, then `record_time()`. -/
def respond (clock : Clock) (s : State) (r : Request) : State :=
  { s with metrics := recordTime (clock s.reads) s.metrics, reads := s.reads + 1,
           effects := s.effects ++ [.post (answer r), .recordTime] }

/-- `release` -/
def releaseHandler (clock : Clock) (s : State) : Except Exit State :=
  let s := { s with release := s.release + 1 }
  match getRequestsSentToAstraea id clock s.reads s.myQueue with
  | none     => .error .emptyQueue
  | some out =>
      .ok (out.requests.foldl (respond clock) { s with myQueue := out.myQueue, reads := out.reads })

/-- One call of a handler. -/
inductive Op
  | readRequest (request ipClient : Str) (outcome : Outcome)
  | writeRequest (request ipClient : Str)
  | release

def exec (clock : Clock) (s : State) : Op → Except Exit State
  | .readRequest request ipClient outcome => readRequestFromClient clock request ipClient outcome s
  | .writeRequest request ipClient        => .ok (writeRequestFromClient clock request ipClient s)
  | .release                              => releaseHandler clock s

/-- The gateway, one operation at a time; it stops when the process ends. -/
def sequential (clock : Clock) : System State Op := ⟨initial, fun s op => (exec clock s op).toOption⟩

theorem exec_of_step {clock : Clock} {s s' : State} {op : Op}
    (h : (sequential clock).step s op = some s') : exec clock s op = .ok s' := by
  change (exec clock s op).toOption = some s' at h
  cases hexec : exec clock s op with
  | error exit =>
      rw [hexec] at h
      cases h
  | ok s₁ =>
      rw [hexec] at h
      exact congrArg Except.ok (Option.some.inj h)

/-! ## Reading the history -/

/-- The requests pushed on `myQueue`, in order. -/
def pushes (es : List Effect) : List Request :=
  es.filterMap (fun | .push r => some r | _ => none)

/-- The responses posted to clients, in order. -/
def responses (es : List Effect) : List Post :=
  es.filterMap (fun | .post p => some p | _ => none)

/-- The number of calls of `record_time`. -/
def recordTimes (es : List Effect) : Nat := es.count .recordTime

end Gateway
end AstraeaGateway
