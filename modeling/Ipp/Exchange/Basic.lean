import Ipp.Config
import Ipp.Log
import Ipp.Reply.Queue
import Ipp.Request.Header
import Ipp.Channel.Basic
import Ipp.Status
import Ipp.Uri.Host

/-!
# Exchanges

The state of one exchange: a request on its way in and a reply on its way out. Attributes of the request
stay in it until they are claimed.
-/

namespace Ipp

structure Exchange where
  channel : Channel
  root : String
  traceRequests : Bool
  -- How the domains in URIs are read.
  readDomain : Uri.DomainReader := Uri.asciiDomain
  -- The path that the request was addressed to.
  pathInfo : String := ""
  -- The user that the transport has authenticated.
  remoteUser : Option String := none
  remoteAddr : Option String := none
  header : Header := {}
  -- The outcome that the reply will report.
  status : Status := Status.ok
  -- The attributes of the request that nobody has claimed.
  request : List Attribute := []
  -- The attributes of the reply.
  queue : Queue := {}
  -- The content of a file that is sent in place of a reply.
  substitute : Option (List UInt8) := none
  replied : Bool := false
  closed : Bool := false
  log : List LogEvent := []

namespace Exchange

/-- An exchange over two streams. `declared` is the length of the request, where it is known. -/
def opened (config : Config) (source : Source) (sink : Sink) (declared : Option Nat)
    (readDomain : Uri.DomainReader := Uri.asciiDomain) : Exchange :=
  { channel := .opened source sink declared config.bufferSize.toNat
    root := config.root
    traceRequests := config.traceRequests
    readDomain }

/-- A call on an exchange that can fail, and keeps the state it has reached when it does. -/
abbrev Action := EStateM Fault Exchange

abbrev Query := StateM Exchange

def onChannel {α : Type} (call : Channel.Action α) : Action α := fun e =>
  match call e.channel with
  | .ok a channel => .ok a { e with channel }
  | .error fault channel => .error fault { e with channel }

def note (e : Exchange) (event : LogEvent) : Exchange :=
  { e with log := e.log ++ [event] }

/-- Changes the queue, or fails and leaves everything as it is. -/
def queueing (change : Queue → Except Fault Queue) : Action Unit := fun e =>
  match change e.queue with
  | .ok queue => .ok () { e with queue }
  | .error fault => .error fault e

/-! ## The end -/

/-- Drops the rest of the request and sends what is pending, once. -/
def close : Action Unit := fun e =>
  if e.closed then .ok () e else onChannel Channel.finish { e with closed := true }

/-- Closes an exchange that nobody has finished; a fault is reported. -/
def discard (e : Exchange) : Exchange :=
  match e.close with
  | .ok () e => e
  | .error fault e =>
    e.note
      { level := .warn, message := "failed to close IPP channel", fields := [("error", fault.message)] }

end Exchange
end Ipp
