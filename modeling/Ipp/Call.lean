import Ipp.Exchange.Document
import Ipp.Exchange.Echo
import Ipp.Serve
import Ipp.WellKnown

/-!
# Calls as data

Everything that a caller can do with an exchange, as a value, so that sequences of calls can be spoken
about. A session is an exchange together with what its caller keeps: the attributes it was handed and
the well-known attributes of the request.
-/

namespace Ipp

structure Session where
  exchange : Exchange
  -- The attributes that claims have handed out, in order.
  held : List Attribute := []
  wellKnown : Option WellKnown := none

/-- An attribute in the hands of the caller. -/
inductive Handle where
  -- The one that was handed out at this position.
  | held (position : Nat)
  -- One that the caller has made.
  | made (a : Attribute)
  deriving DecidableEq

inductive Call where
  | parse
  | parseHeader
  | parseBody
  | header
  | request
  | queue
  | trace
  | info
  | find (group : Group) (tag : ValueTag) (name : String)
  | claim (group : Group) (tag : ValueTag) (name : String)
  | claimSingle (group : Group) (tag : ValueTag) (name : String)
  | claimString (group : Group) (tag : ValueTag) (name : String)
  | claimUri (group : Group) (name : String)
  | claimPositive (group : Group) (name : String)
  | claimEnum (group : Group) (name : String)
  | claimBoolean (group : Group) (name : String) (default : Bool)
  | claimKeyword (group : Group) (name : String) (allowed : List String)
  | claimIdentity (authenticated : Bool)
  | demote (a : Handle)
  | addCopy (group : Group) (a : Handle)
  | echo
  | addInteger (group : Group) (tag : ValueTag) (name : String) (n : Int32)
  | addIntegers (group : Group) (tag : ValueTag) (name : String) (ns : List Int32)
  | addString (group : Group) (tag : ValueTag) (name : String) (s : String)
  | addStrings (group : Group) (tag : ValueTag) (name : String) (ss : List String)
  | addBoolean (group : Group) (tag : ValueTag) (name : String) (b : Bool)
  | addOutOfBand (group : Group) (tag : ValueTag) (name : String)
  | addTemplate (group : Group) (tag : ValueTag) (name pattern : String) (arg : Value)
  | addTemplates (group : Group) (tag : ValueTag) (name pattern : String) (args : List Value)
  | addEnd (group : Group)
  | addStandard
  | setStatus (status : Status)
  | rejectOperation
  | setRemoteUser (user : String)
  | setRemoteAddr (addr : String)
  | setPathInfo (path : String)
  | sendReply (header : Bool)
  | replyFromFile (content : List UInt8)
  | forwardRequest (sink : Sink)
  | readDocument (sink : Sink)
  | classify (caps : Capabilities)
  | isRequested (name : String)
  | release

/-- What a call gives back. -/
inductive Answer where
  | done
  | header (header : Header) (status : Status)
  | attributes (attributes : List Attribute)
  | queue (queue : Queue)
  | trace (tree : Json)
  | info (pathInfo : String) (remoteUser remoteAddr : Option String)
  | attribute (found : Option Attribute)
  | text (found : Option String)
  | uri (found : Option Uri)
  | number (found : Option Int32)
  | flag (value : Bool)
  | count (n : Nat)
  | forwarded (outcome : Except Fault Nat) (received : List UInt8)
  | document (outcome : Except Fault DocumentDigest) (received : List UInt8)
  | wellKnown (found : WellKnown)

namespace Session

abbrev Action := EStateM Fault Session

def onExchange {α : Type} (call : Exchange.Action α) : Action α := fun s =>
  match call s.exchange with
  | .ok a exchange => .ok a { s with exchange }
  | .error fault exchange => .error fault { s with exchange }

def onQuery {α : Type} (call : Exchange.Query α) : Action α := fun s =>
  let (a, exchange) := call s.exchange
  .ok a { s with exchange }

def update (change : Exchange → Exchange) : Action Answer := fun s =>
  .ok .done { s with exchange := change s.exchange }

def look (view : Exchange → Answer) : Action Answer := fun s =>
  .ok (view s.exchange) s

def build (change : Queue → Except Fault Queue) : Action Answer := do
  onExchange (Exchange.queueing change)
  return .done

/-- A claim whose attribute the caller keeps. -/
def hold (claim : Exchange.Query (Option Attribute)) : Action Answer := do
  let found ← onQuery claim
  modify fun s => { s with held := s.held ++ found.toList }
  return .attribute found

/-- The attribute behind a handle. -/
def attribute? (s : Session) : Handle → Option Attribute
  | .held position => s.held[position]?
  | .made a => some a

def release (s : Session) : Session :=
  match s.wellKnown with
  | none => s
  | some w => { s with exchange := w.release s.exchange, wellKnown := none }

/-- Classifies, and lets go of the classification before. -/
def classify (caps : Capabilities) (s : Session) : WellKnown × Session :=
  let (w, exchange) := WellKnown.classify caps s.exchange
  (w, { release { s with exchange } with wellKnown := some w })

def isRequested (name : String) (s : Session) : Bool × Session :=
  match s.wellKnown with
  | none => (false, s)
  | some w =>
    let (asked, w) := w.isRequested name
    (asked, { s with wellKnown := some w })

/-- Hands over a part of the request. This cannot fail as a call; its fault is in the answer. -/
def deliver {α : Type} (handOver : Exchange → Exchange.Delivered α)
    (answer : Except Fault α → List UInt8 → Answer) : Action Answer := fun s =>
  let delivered := handOver s.exchange
  .ok (answer delivered.outcome delivered.sink.bytes) { s with exchange := delivered.exchange }

def perform : Call → Action Answer
  | .parse => do onExchange Exchange.parse; return .done
  | .parseHeader => do onExchange Exchange.parseHeader; return .done
  | .parseBody => do onExchange Exchange.parseBody; return .done
  | .header => look fun e => .header e.header e.status
  | .request => look fun e => .attributes e.request
  | .queue => look fun e => .queue e.queue
  | .trace => look fun e => .trace (Trace.render e.request)
  | .info => look fun e => .info e.pathInfo e.remoteUser e.remoteAddr
  | .find group tag name => look fun e => .attribute (e.find? group tag name)
  | .claim group tag name => hold (Exchange.claim group tag name)
  | .claimSingle group tag name => hold (Exchange.claimSingle group tag name)
  | .claimString group tag name => do
    return .text (← onQuery (Exchange.claimString group tag name))
  | .claimUri group name => do return .uri (← onQuery (Exchange.claimUri group name))
  | .claimPositive group name => do return .number (← onQuery (Exchange.claimPositive group name))
  | .claimEnum group name => do return .number (← onQuery (Exchange.claimEnum group name))
  | .claimBoolean group name default => do
    return .flag (← onQuery (Exchange.claimBoolean group name default))
  | .claimKeyword group name allowed => do
    return .text (← onQuery (Exchange.claimKeyword group name allowed))
  | .claimIdentity authenticated => do
    return .text (some (← onQuery (Exchange.claimIdentity authenticated)))
  | .demote a => do
    match (← get).attribute? a with
    | some a => update (·.demote a)
    | none => return .done
  | .addCopy group a => do
    match (← get).attribute? a with
    | some a => build (Queue.addCopy group a)
    | none => return .done
  | .echo => do return .count (← onExchange Exchange.echo)
  | .addInteger group tag name n => build (Queue.addInteger group tag name n)
  | .addIntegers group tag name ns => build (Queue.addIntegers group tag name ns)
  | .addString group tag name s => build (Queue.addString group tag name s)
  | .addStrings group tag name ss => build (Queue.addStrings group tag name ss)
  | .addBoolean group tag name b => build (Queue.addBoolean group tag name b)
  | .addOutOfBand group tag name => build (Queue.addOutOfBand group tag name)
  | .addTemplate group tag name pattern arg => build (Queue.addTemplate group tag name pattern arg)
  | .addTemplates group tag name pattern args =>
    build (Queue.addTemplates group tag name pattern args)
  | .addEnd group => build (·.insertEnd group)
  | .addStandard => build Queue.addStandard
  | .setStatus status => update fun e => { e with status }
  | .rejectOperation => update Exchange.rejectOperation
  | .setRemoteUser user => update fun e => { e with remoteUser := some user }
  | .setRemoteAddr addr => update fun e => { e with remoteAddr := some addr }
  | .setPathInfo path => update fun e => { e with pathInfo := path }
  | .sendReply header => do onExchange (Exchange.sendReply header); return .done
  | .replyFromFile content => update fun e => { e with substitute := some content }
  | .forwardRequest sink => deliver (Exchange.forwardRequest sink) .forwarded
  | .readDocument sink => deliver (Exchange.readDocument sink) .document
  | .classify caps => do return .wellKnown (← modifyGet (classify caps))
  | .isRequested name => do return .flag (← modifyGet (isRequested name))
  | .release => do modify release; return .done

/-! ## Sequences -/

/-- How many attributes and entries an exchange holds, and its status. -/
structure Counts where
  request : Nat
  queued : List Nat
  status : Status
  deriving DecidableEq, Repr

/-- What can be seen after a call. -/
structure Observation where
  answer : Except Fault Answer
  -- Nothing once the exchange is gone.
  counts : Option Counts
  -- The number of bytes taken from the input.
  taken : Nat
  -- The number of bytes that the output has accepted.
  sent : Nat

def counts (s : Session) : Counts :=
  { request := s.exchange.request.length
    queued := replyOrder.map fun g => (s.exchange.queue.list g).length
    status := s.exchange.status }

def observe (answer : Except Fault Answer) (counts : Option Counts) (s : Session) : Observation :=
  { answer
    counts
    taken := s.exchange.channel.source.taken
    sent := s.exchange.channel.sink.sent.length }

def step (call : Call) (s : Session) : Observation × Session :=
  match perform call s with
  | .ok answer s => (s.observe (.ok answer) (some s.counts), s)
  | .error fault s => (s.observe (.error fault) (some s.counts), s)

/-- Performs calls one after the other, whether they fail or not. -/
def play : List Call → Session → List Observation × Session
  | [], s => ([], s)
  | call :: calls, s =>
    let (seen, s) := s.step call
    let (more, s) := s.play calls
    (seen :: more, s)

def finish (s : Session) : Observation × Session :=
  match onExchange Exchange.close s with
  | .ok () s => (s.observe (.ok .done) none, s)
  | .error fault s => (s.observe (.error fault) none, s)

def discard (s : Session) : Session :=
  { s with exchange := s.exchange.discard }

/-! ## Handlers -/

/-- A call of a handler, and whether the handler goes on when it fails. -/
structure Planned where
  call : Call
  goesOn : Bool := false

/-- Performs calls up to the first that fails and must not. -/
def follow : List Planned → Session → Except Fault Unit × List Observation × Session
  | [], s => (.ok (), [], s)
  | planned :: rest, s =>
    let (seen, s) := s.step planned.call
    match seen.answer, planned.goesOn with
    | .error fault, false => (.error fault, [seen], s)
    | _, _ =>
      let (outcome, more, s) := s.follow rest
      (outcome, seen :: more, s)

def handler (plan : List Planned) : Handler (List Observation) := fun exchange =>
  let (outcome, seen, s) := follow plan { exchange }
  { outcome, exchange := s.release.exchange, report := seen }

end Session
end Ipp
