import Ipp.Tag
import Ipp.Text.Quoted

/-!
# Faults

Why a call failed. A fault ends the exchange; its class says whose fault it is, and `message` is the one
place where it is put into words.
-/

namespace Ipp

inductive Side where
  | read
  | write
  deriving DecidableEq, Repr

inductive Fault where
  -- A stream failed.
  | io (text : String)
  -- The input ended before the declared length was reached.
  | prematureEof
  -- More was asked for than the input holds.
  | dataRunoff
  -- The declared length leaves no room for more than the header.
  | requestTooShort (declared : Nat)
  -- A delimiter that opens no group.
  | invalidTag (tag : UInt8)
  -- A value without a name where no attribute is open.
  | noName
  -- An attribute before the first group.
  | noGroup (name : String)
  -- An integer that is not four bytes long, or a boolean that is not one byte long.
  | badValueLength (name : String) (tag : ValueTag) (length : UInt16)
  | invalidUri (reason : String)
  -- A builder was given a tag of another family.
  | wrongFamily (builder name found : String)
  -- A value that its tag has no encoding for.
  | unhandledValueTag (name : String) (tag : ValueTag)
  | unhandledGroup (delimiter : UInt8)
  | emptyAttribute (name : String)
  | valueTooLong (name : String)
  | noOperationAttributes
  | replyAlreadySent
  | cannotRewind
  | bufferOverrun (side : Side)
  -- A byte was put behind the guard of the write buffer.
  | pastGuard
  -- A configuration file that is not in the expected form.
  | malformedConfig
  deriving DecidableEq, Repr

/-- Who is responsible for a fault. -/
inductive FaultClass where
  -- The streams failed or ended early.
  | transport
  -- The peer sent what cannot be decoded.
  | protocol
  -- The caller broke a rule of this library.
  | contract
  deriving DecidableEq, Repr

namespace Fault

open Text.Quoted (quote)

def faultClass : Fault → FaultClass
  | io _ | prematureEof | dataRunoff => .transport
  | requestTooShort _ | invalidTag _ | noName | noGroup _ | badValueLength .. | invalidUri _ => .protocol
  | wrongFamily .. | unhandledValueTag .. | unhandledGroup _ | emptyAttribute _ | valueTooLong _
  | noOperationAttributes | replyAlreadySent | cannotRewind | bufferOverrun _ | pastGuard
  | malformedConfig => .contract

def message : Fault → String
  | io text => "I/O error: " ++ text
  | prematureEof => "premature EOF"
  | dataRunoff => "data runoff"
  | requestTooShort declared =>
    "request is too short to be an IPP request (" ++ Text.decimal declared ++ " bytes)"
  | invalidTag tag => "invalid tag value 0x" ++ Text.hexByte tag
  | noName => "no name"
  | noGroup name => "attribute " ++ quote name ++ " is outside of any attribute group"
  | badValueLength name tag length =>
    "value of " ++ quote name ++ " (tag 0x" ++ Text.hexByte tag.byte ++ ") has invalid length " ++
      Text.decimal length.toNat
  | invalidUri reason => "invalid URI " ++ quote reason
  | wrongFamily builder name found => builder ++ "(): " ++ name ++ " is a " ++ found
  | unhandledValueTag name tag =>
    "missing case for value tag 0x" ++ Text.hexByte tag.byte ++ " in " ++ quote name
  | unhandledGroup delimiter => "group 0x" ++ Text.hexByte delimiter ++ " cannot hold this entry"
  | emptyAttribute name => quote name ++ " has no values"
  | valueTooLong name => "value of " ++ quote name ++ " is too long for the wire"
  | noOperationAttributes => "no response_attrs_operation"
  | replyAlreadySent => "reply already sent"
  | cannotRewind => "request can no longer be rewound"
  | bufferOverrun .read => "read buffer overrun"
  | bufferOverrun .write => "write buffer overrun"
  | pastGuard => "write behind the guard byte"
  | malformedConfig => "malformed configuration"

end Fault

/-- The group that a delimiter opens. -/
def Group.ofDelimiter (b : UInt8) : Except Fault Group :=
  match ofDelimiter? b with
  | some g => .ok g
  | none => .error (.unhandledGroup b)

end Ipp
