import Ipp.Exchange.Parsing
import Ipp.Exchange.Reply

/-!
# Serving

One whole exchange: the request is read and checked, a handler for the operation answers it, and the
reply is sent. However it goes, the rest of the request is dropped and pending output is sent at the end.
-/

namespace Ipp

/-- What the transport knows about a request. -/
structure Peer where
  pathInfo : String := ""
  -- The length of the request.
  declared : Option Nat := none
  remoteUser : Option String := none
  remoteAddr : Option String := none
  deriving DecidableEq, Repr

/-- What a handler leaves behind: its outcome, the exchange, and whatever else it reports. -/
structure Handled (ω : Type) where
  outcome : Except Fault Unit
  exchange : Exchange
  report : ω

abbrev Handler (ω : Type) := Exchange → Handled ω

/-- What is left of a whole exchange: the status that was sent, or the fault; the exchange; and the
report of the handler, if it was called. -/
structure Served (ω : Type) where
  outcome : Except Fault Status
  exchange : Exchange
  report : Option ω

namespace Exchange

/-! ## Checks -/

/-- Whether the first attribute of the request names its charset. -/
def leadsWithCharset (e : Exchange) : Bool :=
  match e.request with
  | [] => false
  | a :: _ => a.isFor .operation .charset "attributes-charset" && a.isSingle

/-- Whether texts in a charset can be read. The case of its name does not matter. -/
def isReadableCharset (name : String) : Bool :=
  ["utf-8", "us-ascii"].contains (String.ofList (name.toList.map Char.toLower))

/-- The checks that every operation shares. Gives the status of the first that fails. -/
def precheck : Query (Option Status) := fun e =>
  if e.header.major ≠ 1 then (some Status.versionNotSupported, e)
  else if !e.leadsWithCharset then (some Status.badRequest, e)
  else
    let (charset, e) := claimSingle .operation .charset "attributes-charset" e
    let (_, e) := claim .operation .naturalLanguage "attributes-natural-language" e
    match charset with
    | none => (some Status.charsetNotSupported, e)
    | some a =>
      if (a.values.head?.bind Value.string?).any isReadableCharset then (none, e)
      else (some Status.charsetNotSupported, e.demote a)

/-! ## Stages -/

/-- An exchange for a request from `peer`. A user without a name is none. -/
def received (config : Config) (peer : Peer) (source : Source) (sink : Sink) : Exchange :=
  { opened config source sink peer.declared with
    pathInfo := peer.pathInfo
    remoteUser := peer.remoteUser.filter (· ≠ "")
    remoteAddr := peer.remoteAddr }

/-- Reads and checks the request. Gives whether it is to be handled. -/
def prepare : Action Bool := do
  parse
  let failed ← modifyGet precheck
  match failed with
  | some status => modify fun e => { e with status }
  | none => pure ()
  queueing Queue.addStandard
  return (← get).status = Status.ok

/-- The text that goes with a status, for those that have one. -/
def statusMessage? (status : Status) : Option String :=
  [(Status.ok, "successful-ok"),
   (Status.operationNotSupported, "IPP server does not support this IPP operation"),
   (Status.charsetNotSupported, "IPP server does not support your chosen character set")].lookup status

def answer (emitHeader : Bool) : Action Status := do
  match statusMessage? (← get).status with
  | some text => queueing (Queue.addString .operation .text "status-message" text)
  | none => pure ()
  sendReply emitHeader
  return (← get).status

def rejectOperation (e : Exchange) : Exchange :=
  { e with status := Status.operationNotSupported }

/-! ## The whole -/

/-- Reported when the exchange could not be closed after a fault. -/
def closeFailed (fault : Fault) : LogEvent :=
  { level := .warn
    message := "failed to close IPP channel after error"
    fields := [("error", fault.message)] }

/-- Reported when an exchange ends with a fault. -/
def aborted (fault : Fault) : LogEvent :=
  match fault.faultClass with
  | .transport => event .warn "IPP exchange aborted: transport"
  | .protocol => event .warn "IPP exchange aborted: malformed request"
  | .contract => event .error "IPP exchange aborted: internal error"
where
  event (level : Level) (message : String) : LogEvent :=
    { level, message, fields := [("error", fault.message)] }

/-- Closes the exchange. Its fault is that of the stages before, else that of closing. -/
def conclude {ω : Type} (outcome : Except Fault Status) (report : Option ω) (e : Exchange) :
    Served ω :=
  match outcome, e.close with
  | .ok status, .ok () e => { outcome := .ok status, exchange := e, report }
  | .ok _, .error fault e => { outcome := .error fault, exchange := e, report }
  | .error fault, .ok () e => { outcome := .error fault, exchange := e.note (aborted fault), report }
  | .error fault, .error closing e =>
    { outcome := .error fault
      exchange := (e.note (closeFailed closing)).note (aborted fault)
      report }

def answerAndConclude {ω : Type} (emitHeader : Bool) (report : Option ω) (e : Exchange) : Served ω :=
  match answer emitHeader e with
  | .ok status e => e.conclude (.ok status) report
  | .error fault e => e.conclude (.error fault) report

end Exchange

/-- Serves one exchange. The handler is called for a request that was read and passed the checks. -/
def serve {ω : Type} (config : Config) (peer : Peer) (source : Source) (sink : Sink)
    (handler : Handler ω) : Served ω :=
  match Exchange.prepare (.received config peer source sink) with
  | .error fault e => e.conclude (.error fault) none
  | .ok false e => e.answerAndConclude config.emitHeader none
  | .ok true e =>
    let handled := handler e
    match handled.outcome with
    | .error fault => handled.exchange.conclude (.error fault) (some handled.report)
    | .ok () => handled.exchange.answerAndConclude config.emitHeader (some handled.report)

end Ipp
