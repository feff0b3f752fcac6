/-
Request ids.

The outermost layer of the API gives each request an id: the one its `x-request-id` header has,
if that can be read, or one mixed of the time and a counter of the process.
-/
import SentrixIndexer.Backoff
import SentrixIndexer.Proofs.HexText

namespace SentrixIndexer

/-- `HeaderValue::to_str`: visible ASCII and tabs. -/
def headerText (bytes : List UInt8) : Option String :=
  if bytes.all fun b => (32 ≤ b && b < 127) || b = 9 then
    some (String.ofList (bytes.map fun b => Char.ofNat b.toNat))
  else none

/-- What the layer reads of a request: its header and, if need be, the clock. -/
structure Arrival where
  /-- The bytes of `x-request-id`. -/
  header : Option (List UInt8)
  /-- Since the epoch, unless the clock is set before it. -/
  clock : Option Duration

/-- The time in one word, the seconds above the nanoseconds. -/
def clockBits : Option Duration → UInt64
  | some d => d.nanos.toUInt64 ||| (d.secs <<< 32)
  | none => 0

def generateId (clock : Option Duration) (seq : UInt64) : String :=
  hexEncode (beBytes 8 (clockBits clock ^^^ seq).toNat)

inductive RequestId
  | passed (id : String)
  | generated (id : String)

/-- `request_id_middleware`: the id, and `NEXT_ID` after it. -/
def requestIdMiddleware (nextId : UInt64) (a : Arrival) : RequestId × UInt64 :=
  match a.header.bind headerText with
  | some id => (.passed id, nextId)
  | none => (.generated (generateId a.clock nextId), nextId + 1)

/-- The ids of requests in the order in which they come to the counter. -/
def requestIds : UInt64 → List Arrival → List RequestId
  | _, [] => []
  | nextId, a :: rest =>
      let (id, nextId) := requestIdMiddleware nextId a
      id :: requestIds nextId rest

end SentrixIndexer
