import Ipp.Fault
import Ipp.Json.Basic
import Ipp.Text.Utf8
import Ipp.Wire

/-!
# Values

The values of an attribute, and how the bytes of one are read according to the family of its tag.
-/

namespace Ipp

inductive Value where
  | integer (n : Int32)
  | boolean (b : Bool)
  | string (s : String)
  /-- Bytes that are not interpreted: those of a tag without an encoding here, or of a string tag when
  they are not UTF-8. -/
  | bytes (bs : List UInt8)
  -- An additional value whose tag is not that of its attribute. It keeps its own.
  | tagged (tag : ValueTag) (bs : List UInt8)
  deriving DecidableEq, Repr

namespace Value

def integer? : Value → Option Int32
  | integer n => some n
  | _ => none

def boolean? : Value → Option Bool
  | boolean b => some b
  | _ => none

def string? : Value → Option String
  | string s => some s
  | _ => none

-- The value in words; of bytes only their number is shown.
def describe : Value → String
  | integer n => Text.decimalInt n.toInt
  | boolean b => if b then "TRUE" else "FALSE"
  | string s => s
  | bytes bs => "<" ++ Text.decimal bs.length ++ " bytes>"
  | tagged tag bs => "<" ++ tag.describe ++ ": " ++ Text.decimal bs.length ++ " bytes>"

def bytesJson (bs : List UInt8) : Json :=
  .list (bs.map fun b => .int b.toNat)

def toJson : Value → Json
  | integer n => .int n.toInt
  | boolean b => .bool b
  | string s => .text s
  | bytes bs => bytesJson bs
  | tagged tag bs => .object [("bytes", bytesJson bs), ("tag", .int tag.byte.toNat)]

-- Reads the bytes of one value. `name` is that of the attribute, for the fault.
def decode (tag : ValueTag) (name : String) (bs : List UInt8) : Except Fault Value :=
  match tag.family with
  | .integer =>
    if bs.length = 4 then .ok (integer (Wire.toInt32 bs))
    else .error (.badValueLength name tag (UInt16.ofNat bs.length))
  | .boolean =>
    match bs with
    | [b] => .ok (boolean (b != 0))
    | _ => .error (.badValueLength name tag (UInt16.ofNat bs.length))
  | .string =>
    match Text.ofUtf8? bs with
    | some s => .ok (string s)
    | none => .ok (bytes bs)
  | .other => .ok (bytes bs)

end Value

/-! ## Templates -/

-- Puts `text` in the place of the first pair of braces.
def fillFirst (text : List Char) : List Char → List Char
  | '\x7b' :: '\x7d' :: rest => text ++ rest
  | c :: rest => c :: fillFirst text rest
  | [] => []

-- The text of a template for one value.
def Value.fill (pattern : String) (v : Value) : String :=
  String.ofList (fillFirst v.describe.toList pattern.toList)

end Ipp
