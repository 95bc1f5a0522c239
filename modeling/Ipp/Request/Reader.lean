import Ipp.Attribute
import Ipp.Channel.Codec
import Ipp.Log

/-!
# Reading the attribute section

The section is a row of delimiters and items up to the end tag. An item is a value tag, a name and a
value, each of the last two behind its length; an item without a name adds a value to the attribute
before it. The reader stops right behind the end tag. When it fails it keeps what it has read so far.
-/

namespace Ipp

structure Reader where
  channel : Channel
  -- The group that was opened last.
  group : Option Group := none
  -- How many groups were opened.
  block : Nat := 0
  -- The attribute that more values can be added to.
  current : Option Attribute := none
  -- The attributes before it, newest first.
  closed : List Attribute := []
  -- What is to be reported, newest first.
  notes : List LogEvent := []

namespace Reader

abbrev Action := EStateM Fault Reader

def onChannel {α : Type} (call : Channel.Action α) : Action α := fun r =>
  match call r.channel with
  | .ok a channel => .ok a { r with channel }
  | .error fault channel => .error fault { r with channel }

/-- The attributes read so far, in order. -/
def attributes (r : Reader) : List Attribute :=
  (r.current.toList ++ r.closed).reverse

/-! ## Steps -/

def enter (r : Reader) (group : Group) : Reader :=
  { r with
    group := some group
    block := r.block + 1
    current := none
    closed := r.current.toList ++ r.closed }

def start (r : Reader) (group : Group) (tag : ValueTag) (name : String) (value : Value) : Reader :=
  { r with
    current := some { name, group, tag, values := [value], block := r.block }
    closed := r.current.toList ++ r.closed }

/-- Adds a value to the current attribute `a`. -/
def extend (r : Reader) (a : Attribute) (value : Value) : Reader :=
  { r with current := some { a with values := a.values ++ [value] } }

/-- Reported when an additional value has another encoding than its attribute. -/
def differentEncoding (a : Attribute) (tag : ValueTag) : LogEvent :=
  { level := .warn
    message := "additional value has a different encoding; kept as raw bytes"
    fields := [("name", a.name), ("tag", a.tag.describe), ("value_tag", tag.describe)] }

def getCounted : Action (List UInt8) := do
  let length ← onChannel Channel.getUInt16
  onChannel (Channel.getBytes length.toNat)

/-- Reads the rest of an item whose name has `length` bytes. -/
def readNamed (tag : ValueTag) (length : UInt16) : Action Unit := do
  let name := Text.ofUtf8Lossy (← onChannel (Channel.getBytes length.toNat))
  let bytes ← getCounted
  match (← get).group with
  | none => throw (.noGroup name)
  | some group =>
    match Value.decode tag name bytes with
    | .error fault => throw fault
    | .ok value => modify fun r => r.start group tag name value

/-- Reads the rest of an item without a name. A value of another tag than its attribute keeps its tag
and bytes. -/
def readAdditional (tag : ValueTag) : Action Unit := do
  match (← get).current with
  | none => throw .noName
  | some a =>
    let bytes ← getCounted
    if tag = a.tag then
      match Value.decode tag a.name bytes with
      | .error fault => throw fault
      | .ok value => modify fun r => r.extend a value
    else
      if tag.family ≠ a.tag.family then
        modify fun r => { r with notes := differentEncoding a tag :: r.notes }
      modify fun r => r.extend a (.tagged tag bytes)

/-- Reads a delimiter or an item. Gives whether the section goes on. -/
def readPart : Action Bool := do
  let tag ← onChannel Channel.getByte
  if tag = endOfAttributes then return false
  if tag ≤ lastDelimiter then
    match Group.ofDelimiter? tag with
    | none => throw (.invalidTag tag)
    | some group => modify (·.enter group)
  else
    let length ← onChannel Channel.getUInt16
    if length = 0 then readAdditional ⟨tag⟩ else readNamed ⟨tag⟩ length
  return true

def readWithin : (bound : Nat) → Action Unit
  | 0 => throw .dataRunoff
  | bound + 1 => do
    if ← readPart then readWithin bound

/-- Reads up to the end tag. Every part takes at least one byte, so their number is bounded by what is
left. -/
def read : Action Unit := do
  readWithin ((← get).channel.left + 1)

end Reader
end Ipp
