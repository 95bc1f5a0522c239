import Ipp.Channel.Codec
import Ipp.Exchange.Claim
import Ipp.Reply.Builder
import Ipp.Reply.Encoding

/-!
# Sending the reply

A reply is sent once: from the queue, to which all that nobody has claimed is added first, or from a
file.
-/

namespace Ipp.Exchange

/-- Whether an attribute that nobody has claimed is sent back as unsupported. -/
def isSwept (a : Attribute) : Bool :=
  a.group == .operation || a.group == .job

/-- Queues every operation and job attribute that is left in the request as unsupported. -/
def sweep (e : Exchange) : Exchange :=
  (e.request.filter isSwept).foldl demote { e with request := e.request.filter (!isSwept ·) }

def contentType : String := "Content-Type: application/ipp\r\n"

/-- The bytes in front of a reply, where a header is asked for. -/
def replyPreamble (header : Bool) : List UInt8 :=
  if header then Text.utf8 (contentType ++ "\r\n") else []

/-- The bytes in front of a file, where a header is asked for. -/
def filePreamble (header : Bool) (length : Nat) : List UInt8 :=
  if header then
    Text.utf8 (contentType ++ "Content-Length: " ++ Text.decimal length ++ "\r\n\r\n")
  else []

/-- Puts an encoding on the channel and flushes it, or fails as the encoding did. -/
def putEncoding (encoding : Encoding) : Channel.Action Unit := do
  Channel.putBytes encoding.bytes
  match encoding.fault with
  | some fault => throw fault
  | none => Channel.flush

def sendFile (header : Bool) (content : List UInt8) : Channel.Action Unit := do
  Channel.putBytes (filePreamble header content.length)
  Channel.copyFile content
  Channel.flush

def sendQueue (header : Bool) : Action Unit := fun e =>
  let e := e.sweep
  if e.queue.operation.isEmpty then .error .noOperationAttributes e
  else
    onChannel
      (putEncoding (.ofBytes (replyPreamble header) ++ encodeReply e.root e.header e.status e.queue)) e

def sendReply (header : Bool) : Action Unit := fun e =>
  if e.replied then .error .replyAlreadySent e
  else
    let e := { e with replied := true }
    match e.substitute with
    | some content => onChannel (sendFile header content) { e with substitute := none }
    | none => sendQueue header e

end Ipp.Exchange
