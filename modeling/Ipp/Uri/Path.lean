import Ipp.Uri.Address

/-!
# Paths

The segments of a path, with those resolved that mean this place or the one above. Tabs and line ends
count as nothing in a URI, but in the path of a file they part a drive from what follows it.
-/

namespace Ipp.Uri

-- A tab or a line end.
def isBreak (c : Char) : Bool :=
  c == '\t' || c == '\n' || c == '\r'

def withoutBreaks (cs : List Char) : List Char :=
  cs.filter (!isBreak ·)

def isLetter (c : Char) : Bool :=
  ('a' ≤ c && c ≤ 'z') || ('A' ≤ c && c ≤ 'Z')

-- Whether a segment means this place.
def isSingleDot (s : List Char) : Bool :=
  s == ['.'] || (s.map Char.toLower) == ['%', '2', 'e']

-- Whether a segment means the place above.
def isDoubleDot (s : List Char) : Bool :=
  let s := s.map Char.toLower
  s == ['.', '.'] || s == ['.', '%', '2', 'e'] || s == ['%', '2', 'e', '.'] ||
    s == ['%', '2', 'e', '%', '2', 'e']

-- A letter and a colon or bar.
def isDriveLetter : List Char → Bool
  | [c, d] => isLetter c && (d == ':' || d == '|')
  | _ => false

-- Whether a segment starts as a drive does, which nothing goes above.
def isDriveLed : List Char → Bool
  | c :: d :: rest => isDriveLetter [c, d] && (rest.isEmpty || rest.head? == some '\\')
  | _ => false

def above : List (List Char) → List (List Char)
  | [] => []
  | s :: outer => if isDriveLed s then s :: outer else outer

-- A drive at the start of a segment that a break parts from what follows it, and what follows it.
def partedDrive? (s : List Char) : Option (List Char × List Char) :=
  match s.dropWhile isBreak with
  | [] => none
  | letter :: s =>
    match s.dropWhile isBreak with
    | ':' :: s =>
      if isLetter letter && s.head?.any isBreak && s.any (!isBreak ·) then
        some ([letter, ':'], withoutBreaks s)
      else none
    | _ => none

/-- The way from the root along a path. -/
structure Trail where
  -- The segments, of which the innermost stands first.
  inward : List (List Char) := []
  -- The first segment is a drive that takes the place of the host.
  onDrive : Bool := false
  deriving DecidableEq, Repr

namespace Trail

def up (t : Trail) : Trail :=
  { t with inward := above t.inward }

/-- Goes into a segment. The path of a file may start with a drive: it is written with a colon and takes
the place of the host. A drive that a break parts from what follows is a segment of its own; it leaves
the host in place, and dots behind it mean nothing. -/
def into (inFile : Bool) (t : Trail) (s : List Char) : Trail :=
  let name := escape escapedInPath (withoutBreaks s)
  if inFile && t.inward.isEmpty then
    match partedDrive? s with
    | some (drive, rest) => { t with inward := [escape escapedInPath rest, drive] }
    | none =>
      if isDriveLetter name then { inward := [name.take 1 ++ [':']], onDrive := true }
      else { t with inward := [name] }
  else { t with inward := name :: t.inward }

-- Follows segments. A path that ends in a segment of dots ends in a slash.
def follow (inFile : Bool) (t : Trail) : List (List Char) → Trail
  | [] => t
  | s :: rest =>
    let name := withoutBreaks s
    if isSingleDot name || isDoubleDot name then
      let t := if isDoubleDot name then t.up else t
      if rest.isEmpty then { t with inward := [] :: t.inward } else follow inFile t rest
    else follow inFile (t.into inFile s) rest

-- The segments from the root on.
def segments (t : Trail) : List (List Char) :=
  t.inward.reverse

end Trail

def followPath (inFile : Bool) (isSeparator : Char → Bool) (text : List Char) : Trail :=
  Trail.follow inFile {} (splitBy isSeparator text)

-- A slash, and slashes between the segments.
def pathText (segments : List (List Char)) : List Char :=
  '/' :: joinBy '/' segments

-- The path behind one separator at the start of `text`, if there is one.
def dropSeparator (isSeparator : Char → Bool) : List Char → List Char
  | [] => []
  | c :: cs => if isSeparator c then cs else c :: cs

end Ipp.Uri
