import AstraeaGateway.Data

/-!
# `Gateway.Database` — `flushToTarget`

The MySQL client is not part of the repository: what its calls do for a query is an `Outcome`. The rest of
`flushToTarget` is here: how each outcome ends, the response built from a result set, and the entry pushed
on `myQueue`.
-/

namespace AstraeaGateway
namespace Gateway

/-- A `MYSQL_RES`: its number of fields, and its rows with a text or NULL for each field. -/
structure ResultSet where
  numFields : Nat
  rows      : List (Fin numFields → Option Str)

/-- What the MySQL calls of one `flushToTarget` do. -/
inductive Outcome
  | nullConn                     -- `mysql_init` returns NULL
  | connectFails                 -- `mysql_real_connect` returns NULL
  | queryFails                   -- `mysql_query` reports an error
  | noResultSet                  -- the query is accepted; `mysql_store_result` returns NULL
  | stored (result : ResultSet)  -- the query is accepted, with a result set

/-- How the gateway process ends. -/
inductive Exit
  | failure     -- `exit(1)`
  | nullResult  -- `mysql_num_fields` and `mysql_fetch_row` on a NULL result
  -- `front()` or `pop()` on an empty queue: undefined, and taken as the end of the process
  | emptyQueue
deriving DecidableEq, Repr

/-- `for (int i = 0; i < num_fields; i++) response += i;` — the index is converted to a character. -/
def fieldLoop (numFields : Nat) (response : Str) : Str :=
  (List.range numFields).foldl (fun response i => response ++ [UInt8.ofNat i]) response

/-- The loop over the rows of the result. -/
def resultLoop (result : ResultSet) : Str :=
  result.rows.foldl (fun response _ => fieldLoop result.numFields response) []

/-- A result set with one column and no rows. -/
def Outcome.noRows : Outcome := .stored ⟨1, []⟩

/-- The MySQL calls of `flushToTarget`, up to the response. -/
def queryTarget : Outcome → Except Exit Str
  | .nullConn      => .error .failure
  | .connectFails  => .error .failure
  | .queryFails    => .error .failure
  | .noResultSet   => .error .nullResult
  | .stored result => .ok (resultLoop result)

/-- `struct request request = {response, ip_client, time(nullptr), true, true};` -/
def readEntry (response ipClient : Str) (now : Int) : Request := ⟨response, ipClient, now, true, true⟩

/-- `struct request request = {param.request, param.ip_client, time(nullptr), true, false};` -/
def writeEntry (request ipClient : Str) (now : Int) : Request := ⟨request, ipClient, now, true, false⟩

/-- The query reached the target database and was accepted there. -/
def Outcome.accepted : Outcome → Bool
  | .noResultSet | .stored _ => true
  | _ => false

/-- The query succeeded and returned a result set. -/
def Outcome.hasResultSet : Outcome → Bool
  | .stored _ => true
  | _ => false

/-- A response is built from a query that was accepted. -/
theorem accepted_of_queryTarget {outcome : Outcome} {response : Str}
    (h : queryTarget outcome = .ok response) : outcome.accepted = true := by
  cases outcome with
  | stored => rfl
  | _ => cases h

@[simp] theorem readEntry_isSent (response ipClient : Str) (now : Int) :
    (readEntry response ipClient now).isSentToAstraea = true := rfl

@[simp] theorem writeEntry_isSent (request ipClient : Str) (now : Int) :
    (writeEntry request ipClient now).isSentToAstraea = true := rfl

end Gateway
end AstraeaGateway
