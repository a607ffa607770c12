import AstraeaGateway.Data

/-!
# `Gateway.Metrics` — counting responses per second

`record_time`, `check_timeout` and `record_requests` of `gateway.cpp`. Seconds are `unsigned int` in the
vector and in `check_timeout`, but `record_time` compares them with the 64-bit `time_t` itself. The counts,
`int`s in the source, have no bound here; `Gateway.Bounded.Metrics` has them as `int`s, whose overflow is a
fault.
-/

namespace AstraeaGateway
namespace Gateway

/-- `throughput`, `second_throughput`, and the contents of `./data/throughput.csv`. -/
structure Metrics where
  throughput       : Int
  secondThroughput : List (UInt32 × Int)
  throughputCsv    : Str
deriving DecidableEq, Repr

def Metrics.initial : Metrics := ⟨0, [], []⟩

/-- `TIMEOUT` -/
def timeout : UInt32 := 8

/-- The conversion of a `time_t` to `unsigned int`. -/
def toUnsigned (t : Int) : UInt32 := UInt32.ofInt t

/-- An `unsigned int` passed where `%d` reads an `int`. -/
def asInt (n : UInt32) : Int := n.toInt32.toInt

/-- `sprintf(_, "%d", n)` -/
def sprintfD (n : Int) : Str := lit (toString n)

/-- One line of the file: `second,requests_n`. -/
def csvLine (record : UInt32 × Int) : Str :=
  sprintfD (asInt record.1) ++ lit "," ++ sprintfD record.2 ++ lit "\n"

/-- `record_requests` overwrites the file with all of `second_throughput`. -/
def recordRequests (m : Metrics) : Metrics :=
  { m with throughputCsv := m.secondThroughput.flatMap csvLine }

/-- `check_timeout`; the sum is an `unsigned int`. -/
def checkTimeout (lastSecond currentSecond : UInt32) (m : Metrics) : Metrics :=
  if lastSecond + timeout < currentSecond then recordRequests m else m

/-- `record_time`, with `currentSecond` the value of `std::time(0)`. -/
def recordTime (currentSecond : Int) (m : Metrics) : Metrics :=
  let m := if m.secondThroughput.isEmpty then
      { m with secondThroughput := m.secondThroughput ++ [(toUnsigned currentSecond, 0)] } else m
  let lastSecond := (m.secondThroughput.getLastD (0, 0)).1
  let m := checkTimeout lastSecond (toUnsigned currentSecond) m
  let m := if currentSecond ≠ lastSecond.toNat then
      { m with secondThroughput := m.secondThroughput ++ [(toUnsigned currentSecond, m.throughput)],
               throughput := 0 } else m
  { m with throughput := m.throughput + 1 }

end Gateway
end AstraeaGateway
