import Ipp.Text.Digits

/-!
# Percent escapes

How a character that may not stand for itself in some part of a URI is written: each byte of its UTF-8
form as a percent sign and two digits. Each part has its own set of such characters.
-/

namespace Ipp.Uri

-- Control characters, and everything beyond ASCII.
def isControl (c : Char) : Bool :=
  c < ' ' || '~' < c

/-! ## What is escaped in which part -/

def escapedInQuery (c : Char) : Bool :=
  isControl c || [' ', '"', '#', '<', '>'].contains c

def escapedInSpecialQuery (c : Char) : Bool :=
  escapedInQuery c || c == '\''

def escapedInFragment (c : Char) : Bool :=
  isControl c || [' ', '"', '<', '>', '\x60'].contains c

def escapedInPath (c : Char) : Bool :=
  escapedInFragment c || ['#', '?', '\x7b', '\x7d'].contains c

/-! ## Writing and reading -/

def upperDigit (n : Nat) : Char :=
  if n < 10 then Char.ofNat ('0'.toNat + n) else Char.ofNat ('A'.toNat + (n - 10))

def escapeByte (b : UInt8) : List Char :=
  ['%', upperDigit (b.toNat / 16), upperDigit (b.toNat % 16)]

def escape (set : Char → Bool) (cs : List Char) : List Char :=
  cs.flatMap fun c => if set c then (String.utf8EncodeChar c).flatMap escapeByte else [c]

/-- The bytes of a text in which percent escapes stand for bytes. A percent sign that starts no escape
stands for itself. -/
def unescape : List Char → List UInt8
  | [] => []
  | '%' :: a :: b :: rest =>
    match Text.hexValue? a, Text.hexValue? b with
    | some a, some b => UInt8.ofNat (a * 16 + b) :: unescape rest
    | _, _ => 0x25 :: unescape (a :: b :: rest)
  | c :: rest => String.utf8EncodeChar c ++ unescape rest

end Ipp.Uri
