import Ipp.Text.Digits

/-!
# Reading JSON

Readers for the parts of a JSON text. Each takes what is left of the text and gives what it read and the
rest, or nothing when the text is not in the form it expects. `skipValue` passes over a value of any kind
and checks its form only.
-/

namespace Ipp.Json

def skipBlanks : List Char → List Char :=
  List.dropWhile fun c => c = ' ' || c = '\t' || c = '\n' || c = '\r'

/-! ## Texts -/

/-- What one position of a JSON text stands for: a character, or half of one, or a character written as
the number of a UTF-16 unit. -/
inductive TextUnit where
  | char (c : Char)
  | code (n : Nat)
  deriving DecidableEq

def hexCode? (a b c d : Char) : Option Nat := do
  let a ← Text.hexValue? a
  let b ← Text.hexValue? b
  let c ← Text.hexValue? c
  let d ← Text.hexValue? d
  some (((a * 16 + b) * 16 + c) * 16 + d)

-- The character that a backslash and this character stand for.
def unescape? (c : Char) : Option Char :=
  if c = '"' then some '"'
  else if c = '\\' then some '\\'
  else if c = '/' then some '/'
  else if c = 'b' then some '\x08'
  else if c = 'f' then some '\x0c'
  else if c = 'n' then some '\n'
  else if c = 'r' then some '\r'
  else if c = 't' then some '\t'
  else none

-- Reads up to the closing quote. Control characters may not stand for themselves.
def readUnits : List Char → Option (List TextUnit × List Char)
  | [] => none
  | '"' :: rest => some ([], rest)
  | '\\' :: 'u' :: a :: b :: c :: d :: rest => do
    let n ← hexCode? a b c d
    let (units, rest) ← readUnits rest
    some (.code n :: units, rest)
  | '\\' :: e :: rest => do
    let c ← unescape? e
    let (units, rest) ← readUnits rest
    some (.char c :: units, rest)
  | c :: rest =>
    if c < ' ' || c = '\\' then none
    else do
      let (units, rest) ← readUnits rest
      some (.char c :: units, rest)

def isHighHalf (n : Nat) : Bool :=
  0xD800 ≤ n && n ≤ 0xDBFF

def isLowHalf (n : Nat) : Bool :=
  0xDC00 ≤ n && n ≤ 0xDFFF

-- The characters of a text. A half that lacks the other half next to it stands for no character.
def charsOfUnits : List TextUnit → Option (List Char)
  | [] => some []
  | .char c :: units => (charsOfUnits units).map (c :: ·)
  | .code hi :: .code lo :: units =>
    if isHighHalf hi then
      if isLowHalf lo then
        (charsOfUnits units).map
          (Char.ofNat (0x10000 + (hi - 0xD800) * 0x400 + (lo - 0xDC00)) :: ·)
      else none
    else if isLowHalf hi then none
    else (charsOfUnits (.code lo :: units)).map (Char.ofNat hi :: ·)
  | .code n :: units =>
    if isHighHalf n || isLowHalf n then none
    else (charsOfUnits units).map (Char.ofNat n :: ·)

def readText : List Char → Option (String × List Char)
  | '"' :: rest => do
    let (units, rest) ← readUnits rest
    let cs ← charsOfUnits units
    some (String.ofList cs, rest)
  | _ => none

/-! ## Numbers and truth values -/

-- Drops a run of at least one digit.
def skipDigits (cs : List Char) : Option (List Char) :=
  if (cs.takeWhile Char.isDigit).isEmpty then none else some (cs.dropWhile Char.isDigit)

-- The whole part has no leading zero.
def skipWhole : List Char → Option (List Char)
  | '0' :: rest => if (rest.takeWhile Char.isDigit).isEmpty then some rest else none
  | cs => skipDigits cs

def skipFraction : List Char → Option (List Char)
  | '.' :: rest => skipDigits rest
  | cs => some cs

def skipExponent : List Char → Option (List Char)
  | c :: rest =>
    if c = 'e' || c = 'E' then
      match rest with
      | s :: rest' => if s = '+' || s = '-' then skipDigits rest' else skipDigits (s :: rest')
      | [] => none
    else some (c :: rest)
  | [] => some []

def skipNumber (cs : List Char) : Option (List Char) := do
  let cs ← skipWhole (if cs.head? = some '-' then cs.tail else cs)
  let cs ← skipFraction cs
  skipExponent cs

-- Reads a number that is written as digits only.
def readNat (cs : List Char) : Option (Nat × List Char) := do
  let digits := cs.takeWhile Char.isDigit
  let n ← Text.natOfDecimal? digits
  let rest ← skipNumber cs
  if rest = cs.dropWhile Char.isDigit then some (n, rest) else none

def readBool : List Char → Option (Bool × List Char)
  | 't' :: 'r' :: 'u' :: 'e' :: rest => some (true, rest)
  | 'f' :: 'a' :: 'l' :: 's' :: 'e' :: rest => some (false, rest)
  | _ => none

/-! ## Lists and objects -/

-- Reads a field name and the colon behind it.
def readKey (cs : List Char) : Option (String × List Char) := do
  let (key, cs) ← readText cs
  match skipBlanks cs with
  | ':' :: cs => some (key, skipBlanks cs)
  | _ => none

mutual

-- Passes over one value. `depth` bounds the steps; the length of the text is enough.
def skipValueWithin : (depth : Nat) → List Char → Option (List Char)
  | 0, _ => none
  | depth + 1, cs =>
    match cs with
    | '"' :: rest => (readUnits rest).map (·.2)
    | '[' :: rest =>
      match skipBlanks rest with
      | ']' :: rest => some rest
      | rest => skipItems depth rest
    | '\x7b' :: rest =>
      match skipBlanks rest with
      | '\x7d' :: rest => some rest
      | rest => skipFields depth rest
    | 'n' :: 'u' :: 'l' :: 'l' :: rest => some rest
    | cs => ((readBool cs).map (·.2)).or (skipNumber cs)

def skipItems : (depth : Nat) → List Char → Option (List Char)
  | 0, _ => none
  | depth + 1, cs => do
    let cs ← skipValueWithin depth cs
    match skipBlanks cs with
    | ']' :: rest => some rest
    | ',' :: rest => skipItems depth (skipBlanks rest)
    | _ => none

def skipFields : (depth : Nat) → List Char → Option (List Char)
  | 0, _ => none
  | depth + 1, cs =>
    match cs with
    | '"' :: rest => do
      let (_, rest) ← readUnits rest
      match skipBlanks rest with
      | ':' :: rest =>
        let rest ← skipValueWithin depth (skipBlanks rest)
        match skipBlanks rest with
        | '\x7d' :: rest => some rest
        | ',' :: rest => skipFields depth (skipBlanks rest)
        | _ => none
      | _ => none
    | _ => none

end

def skipValue (cs : List Char) : Option (List Char) :=
  skipValueWithin (2 * cs.length + 1) cs

end Ipp.Json
