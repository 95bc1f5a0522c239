import Ipp.Digest.Sha256
import Ipp.Exchange.Basic
import Ipp.Text.Digits

/-!
# The document

What stands behind the attribute section of a request, and the request as a whole, handed to a sink.
-/

namespace Ipp

/-- The number of bytes of a document and their hash in hexadecimal. -/
structure DocumentDigest where
  bytes : Nat
  sha256 : String
  deriving DecidableEq, Repr

def DocumentDigest.ofBytes (bytes : List UInt8) : DocumentDigest :=
  { bytes := bytes.length, sha256 := Text.hexBytes (Digest.Sha256.hash bytes) }

namespace Exchange

/-- What handing over leaves behind: the outcome, the sink and the exchange. -/
structure Delivered (α : Type) where
  outcome : Except Fault α
  sink : Sink
  exchange : Exchange

def deliver {α : Type} (summary : Array UInt8 → α) (sink : Sink) (e : Exchange) : Delivered α :=
  let copied := Channel.copyRest sink e.channel
  { outcome := copied.outcome.map summary
    sink := copied.sink
    exchange := { e with channel := copied.channel } }

def readDocument (sink : Sink) (e : Exchange) : Delivered DocumentDigest :=
  e.deliver (fun bytes => .ofBytes bytes.toList) sink

/-- Hands the whole request to `sink`, from its first byte, while that can still be delivered. Gives the
number of bytes. -/
def forwardRequest (sink : Sink) (e : Exchange) : Delivered Nat :=
  match onChannel Channel.rewind e with
  | .error fault e => { outcome := .error fault, sink, exchange := e }
  | .ok () e => e.deliver Array.size sink

end Exchange
end Ipp
