/-!
# Numerals

Decimal and lower-case hexadecimal spellings, and the reading of decimal digits.
-/

namespace Ipp.Text

-- The shortest decimal spelling.
def decimal (n : Nat) : String :=
  String.ofList (Nat.toDigits 10 n)

-- Decimal with a minus sign in front of what is below zero.
def decimalInt : Int → String
  | .ofNat n => decimal n
  | .negSucc n => "-" ++ decimal (n + 1)

def hexByte (b : UInt8) : String :=
  String.ofList [Nat.digitChar (b.toNat / 16), Nat.digitChar (b.toNat % 16)]

def hexBytes (bytes : List UInt8) : String :=
  String.join (bytes.map hexByte)

def digitValue (c : Char) : Nat :=
  c.toNat - '0'.toNat

-- The number that decimal digits spell, most significant first.
def ofDigits (cs : List Char) : Nat :=
  cs.foldl (fun n c => n * 10 + digitValue c) 0

-- The number that a non-empty run of decimal digits spells.
def natOfDecimal? (cs : List Char) : Option Nat :=
  if !cs.isEmpty && cs.all Char.isDigit then some (ofDigits cs) else none

-- The value of a hexadecimal digit, in either case.
def hexValue? (c : Char) : Option Nat :=
  if '0' ≤ c && c ≤ '9' then some (c.toNat - '0'.toNat)
  else if 'a' ≤ c && c ≤ 'f' then some (c.toNat - 'a'.toNat + 10)
  else if 'A' ≤ c && c ≤ 'F' then some (c.toNat - 'A'.toNat + 10)
  else none

end Ipp.Text
