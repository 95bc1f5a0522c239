import Ipp.Exchange.Basic
import Ipp.Request.Reader
import Ipp.Trace

/-!
# Reading the request

The header and the attribute section of the request. The document behind it stays in the channel.
-/

namespace Ipp.Exchange

/-- Reads the header. A request holds more than that, at least the end tag. -/
def parseHeader : Action Unit := do
  match (← get).channel.remaining with
  | some declared => if declared ≤ Header.length then throw (.requestTooShort declared)
  | none => pure ()
  let major ← onChannel Channel.getByte
  modify fun e => { e with header.major := major }
  let minor ← onChannel Channel.getByte
  modify fun e => { e with header.minor := minor }
  let operation ← onChannel Channel.getUInt16
  modify fun e => { e with header.operation := operation }
  let requestId ← onChannel Channel.getUInt32
  modify fun e => { e with header.requestId := requestId }

def adopt (e : Exchange) (r : Reader) : Exchange :=
  { e with
    channel := r.channel
    request := e.request ++ r.attributes
    log := e.log ++ r.notes.reverse }

def traceEvent (e : Exchange) : LogEvent :=
  { level := .debug
    message := "IPP request trace"
    fields :=
      [("request_id", Text.decimal e.header.requestId.toNat),
       ("tree", (Trace.render e.request).render)] }

def parseBody : Action Unit := fun e =>
  match Reader.read { channel := e.channel } with
  | .error fault r => .error fault (e.adopt r)
  | .ok () r =>
    let e := { e.adopt r with status := Status.ok }
    .ok () (if e.traceRequests then e.note e.traceEvent else e)

def parse : Action Unit := do
  parseHeader
  parseBody

end Ipp.Exchange
