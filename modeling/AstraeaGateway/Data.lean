/-!
# `Data` — what the services pass around

The types of `http_request_helper.h` that the other modules are stated over: byte strings, the parameter
maps of the REST helpers, the messages handed to them, and the gateway's `struct request`.
-/

namespace AstraeaGateway

/-- A `std::string`, as its bytes. -/
abbrev Str := List UInt8

/-- An (ASCII) string literal of the source. -/
def lit (s : String) : Str := s.toList.map (fun c => UInt8.ofNat c.toNat)

/-- A `map<string, string>`, as the list of its entries in key order. -/
abbrev Params := List (Str × Str)

/-- A call of one of the helpers that post to another service. -/
structure Post where
  url    : Str
  params : Params
deriving DecidableEq, Repr

/-- `struct request`. `timestamp` is a `time_t` in seconds. -/
structure Request where
  message         : Str
  ipClient        : Str
  timestamp       : Int
  isSentToAstraea : Bool
  readRequest     : Bool
deriving DecidableEq, Repr

end AstraeaGateway
