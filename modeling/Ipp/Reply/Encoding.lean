import Ipp.Reply.Queue
import Ipp.Request.Header
import Ipp.Status

/-!
# The bytes of a reply

A reply is encoded part by part, in the form in which requests are read. An attribute that cannot be
encoded stops the encoding; what was encoded before it is kept.
-/

namespace Ipp

/-- Bytes, and the fault that stopped them, if any. -/
structure Encoding where
  bytes : List UInt8 := []
  fault : Option Fault := none
  deriving DecidableEq

namespace Encoding

def stopped (fault : Fault) : Encoding :=
  { fault := some fault }

/-- Goes on with `next` unless stopped. -/
def append (e : Encoding) (next : Encoding) : Encoding :=
  match e.fault with
  | some _ => e
  | none => { bytes := e.bytes ++ next.bytes, fault := next.fault }

instance : Append Encoding where
  append := append

theorem append_of_fault {e : Encoding} {fault : Fault} (h : e.fault = some fault) (next : Encoding) :
    e ++ next = e := by
  change e.append next = e
  simp [append, h]

theorem append_of_none {e : Encoding} (h : e.fault = none) (next : Encoding) :
    e ++ next = { bytes := e.bytes ++ next.bytes, fault := next.fault } := by
  change e.append next = _
  simp [append, h]

def ofBytes (bytes : List UInt8) : Encoding :=
  { bytes }

def concat : List Encoding → Encoding
  | [] => {}
  | e :: es => e ++ concat es

end Encoding

/-! ## Attributes -/

/-- The tag and the bytes of one value. A URI that is made from a template, or that starts with a slash,
has the root in front of it. -/
def Attribute.payload (root : String) (a : Attribute) (v : Value) :
    Except Fault (ValueTag × List UInt8) :=
  match a.template, a.tag.family, v with
  | some pattern, .string, v =>
    .ok (a.tag, Text.utf8 ((if a.tag = .uri then root else "") ++ v.fill pattern))
  | none, .string, .string s =>
    .ok (a.tag, Text.utf8 ((if a.tag = .uri && s.toList.head? = some '/' then root else "") ++ s))
  | none, .integer, .integer n => .ok (a.tag, Wire.ofInt32 n)
  | none, .boolean, .boolean b => .ok (a.tag, [if b then 1 else 0])
  | none, _, .bytes bs => .ok (a.tag, bs)
  | none, _, .tagged tag bs => .ok (tag, bs)
  | _, _, _ => .error (.unhandledValueTag a.name a.tag)

/-- One value with its tag, behind `name`. -/
def Attribute.encodeValue (root : String) (a : Attribute) (name : List UInt8) (v : Value) : Encoding :=
  match a.payload root v with
  | .error fault => .stopped fault
  | .ok (tag, bytes) =>
    if Wire.longest < bytes.length then .stopped (.valueTooLong a.name)
    else .ofBytes (tag.byte :: Wire.counted name ++ Wire.counted bytes)

/-- The first value stands behind the name; the others have none. -/
def Attribute.encode (root : String) (a : Attribute) : Encoding :=
  let name := Text.utf8 a.name
  match a.values with
  | [] => .stopped (.emptyAttribute a.name)
  | v :: vs =>
    if Wire.longest < name.length then .stopped (.valueTooLong a.name)
    else a.encodeValue root name v ++ .concat (vs.map (a.encodeValue root []))

/-! ## Groups -/

/-- Entries in the group `g`. A marker opens the group again, unless nothing follows. -/
def encodeEntries (root : String) (g : Group) : List Entry → Encoding
  | [] => {}
  | .attribute a :: rest => a.encode root ++ encodeEntries root g rest
  | .endOfObject :: rest =>
    (if rest.isEmpty then {} else .ofBytes [g.delimiter]) ++ encodeEntries root g rest

/-- A group behind its delimiter. An empty group is left out. -/
def encodeGroup (root : String) (g : Group) (entries : List Entry) : Encoding :=
  if entries.isEmpty then {} else .ofBytes [g.delimiter] ++ encodeEntries root g entries

def replyOrder : List Group :=
  [.operation, .printer, .job, .unsupported]

def encodeReplyHeader (h : Header) (status : Status) : List UInt8 :=
  h.replyVersion.1 :: h.replyVersion.2 :: Wire.ofUInt16 status ++ Wire.ofUInt32 h.requestId

/-- A whole reply, up to and including the end tag. -/
def encodeReply (root : String) (h : Header) (status : Status) (q : Queue) : Encoding :=
  .ofBytes (encodeReplyHeader h status) ++
    .concat (replyOrder.map fun g => encodeGroup root g (q.list g)) ++
    .ofBytes [endOfAttributes]

end Ipp
