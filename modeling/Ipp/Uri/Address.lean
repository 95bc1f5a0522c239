import Ipp.Text.Digits
import Ipp.Uri.Percent
import Ipp.Wire

/-!
# Numeric hosts

IPv4 and IPv6 addresses: which texts are read as one, and the one form in which they are written.
-/

namespace Ipp.Uri

-- The parts of a text between separators. There is one more of them than there are separators.
def splitBy (isSeparator : Char → Bool) : List Char → List (List Char)
  | [] => [[]]
  | c :: cs =>
    if isSeparator c then [] :: splitBy isSeparator cs
    else
      match splitBy isSeparator cs with
      | part :: parts => (c :: part) :: parts
      | [] => [[c]]

def joinBy (separator : Char) : List (List Char) → List Char
  | [] => []
  | [part] => part
  | part :: parts => part ++ separator :: joinBy separator parts

def ofBase? (base : Nat) (cs : List Char) : Option Nat :=
  cs.foldlM (fun n c => do
    let d ← Text.hexValue? c
    if d < base then some (n * base + d) else none) 0

/-! ## IPv4 -/

-- One part of an address: hexadecimal behind `0x`, octal behind another `0`, else decimal.
def ipv4Part? : List Char → Option Nat
  | [] => none
  | '0' :: c :: cs => if c = 'x' || c = 'X' then ofBase? 16 cs else ofBase? 8 (c :: cs)
  | cs => ofBase? 10 cs

-- The parts of a host between dots; a dot at the end does not count.
def dotParts (host : List Char) : List (List Char) :=
  let parts := splitBy (· = '.') host
  if parts.getLast? = some [] then parts.dropLast else parts

-- Whether a host has to be an IPv4 address: its last part is a number.
def endsInNumber (host : List Char) : Bool :=
  match (dotParts host).getLast? with
  | none => false
  | some part => (!part.isEmpty && part.all Char.isDigit) || (ipv4Part? part).isSome

-- The number of an address whose last part fills all bytes that the parts before leave.
def ipv4Number? : (bytesLeft : Nat) → List Nat → Option Nat
  | _, [] => none
  | bytesLeft, [n] => if n < Wire.weight bytesLeft then some n else none
  | bytesLeft, n :: ns => do
    let low ← ipv4Number? (bytesLeft - 1) ns
    if n < 256 then some (n * Wire.weight (bytesLeft - 1) + low) else none

def ipv4? (host : List Char) : Option Nat := do
  let parts ← (dotParts host).mapM ipv4Part?
  if parts.length ≤ 4 then ipv4Number? 4 parts else none

def ipv4Text (n : Nat) : List Char :=
  joinBy '.' ((Wire.ofNat 4 n).map fun b => Nat.toDigits 10 b.toNat)

/-! ## IPv6 -/

def hexPiece? (cs : List Char) : Option Nat :=
  if cs.isEmpty || 4 < cs.length then none else ofBase? 16 cs

-- A decimal number below 256 without leading zeros.
def byte? (cs : List Char) : Option Nat := do
  let n ← Text.natOfDecimal? cs
  if n < 256 && (cs.length = 1 || cs.head? ≠ some '0') then some n else none

-- The last two pieces of an address, written as four bytes.
def dottedPieces? (cs : List Char) : Option (List Nat) := do
  match ← (splitBy (· = '.') cs).mapM byte? with
  | [a, b, c, d] => some [a * 256 + b, c * 256 + d]
  | _ => none

-- Pieces in a row, of which the last may be `dotted`.
def pieces? (dotted : Bool) : List (List Char) → Option (List Nat)
  | [] => some []
  | [s] => if dotted && s.contains '.' then dottedPieces? s else (hexPiece? s).map ([·])
  | s :: ss => do
    let n ← hexPiece? s
    let ns ← pieces? dotted ss
    some (n :: ns)

-- The pieces on one side of the gap, where there may be none.
def side? (dotted : Bool) (cs : List Char) : Option (List Nat) :=
  if cs.isEmpty then some [] else pieces? dotted (splitBy (· = ':') cs)

-- The texts before and behind the first two colons in a row.
def splitGap : List Char → Option (List Char × List Char)
  | ':' :: ':' :: cs => some ([], cs)
  | c :: cs => (splitGap cs).map fun (before, behind) => (c :: before, behind)
  | [] => none

-- Reads the eight pieces of an address. A gap stands for at least one piece that is zero.
def ipv6? (cs : List Char) : Option (List Nat) :=
  match splitGap cs with
  | none => do
    let ps ← pieces? true (splitBy (· = ':') cs)
    if ps.length = 8 then some ps else none
  | some (before, behind) => do
    let ps ← side? false before
    let qs ← side? true behind
    if ps.length + qs.length < 8 then
      some (ps ++ List.replicate (8 - (ps.length + qs.length)) 0 ++ qs)
    else none

-- Position and length of the first longest run of zeros; `i` is the position of the first piece.
def longestZeros : (i : Nat) → List Nat → Nat × Nat
  | i, [] => (i, 0)
  | i, p :: ps =>
    let here := ((p :: ps).takeWhile (· = 0)).length
    let later := longestZeros (i + 1) ps
    if later.2 ≤ here then (i, here) else later

def hexPieces (ps : List Nat) : List Char :=
  joinBy ':' (ps.map (Nat.toDigits 16))

/-- The pieces in hexadecimal, with a gap in place of the first longest run of zeros. A single zero is
written. -/
def ipv6Text (ps : List Nat) : List Char :=
  let (start, length) := longestZeros 0 ps
  if length < 2 then hexPieces ps
  else hexPieces (ps.take start) ++ [':', ':'] ++ hexPieces (ps.drop (start + length))

end Ipp.Uri
