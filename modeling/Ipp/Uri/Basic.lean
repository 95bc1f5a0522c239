import Ipp.Fault
import Ipp.Text.Blank
import Ipp.Uri.Host
import Ipp.Uri.Path

/-!
# URIs

The URIs that name printers and jobs: a scheme, an authority without user information, a path, a query
and a fragment. Reading follows the URL standard, so that different spellings give one form; `toText`
writes that form.
-/

namespace Ipp

structure Uri where
  scheme : String
  -- Empty when the URI has none.
  host : String
  -- Only a port that is not the default of the scheme.
  port : Option Nat
  path : String
  query : Option String
  fragment : Option String
  deriving DecidableEq, Repr

namespace Uri

/-! ## Schemes -/

/-- How the parts behind a scheme are read. -/
inductive Kind where
  | file
  -- The other schemes that the standard names.
  | special
  | other
  deriving DecidableEq, Repr

def kind (scheme : List Char) : Kind :=
  if scheme = "file".toList then .file
  else if ["http", "https", "ws", "wss", "ftp"].contains (String.ofList scheme) then .special
  else .other

def defaultPort? (scheme : String) : Option Nat :=
  [("http", 80), ("ws", 80), ("https", 443), ("wss", 443), ("ftp", 21)].lookup scheme

def Kind.isSeparator (k : Kind) (c : Char) : Bool :=
  c == '/' || (c == '\\' && k != .other)

def Kind.endsAuthority (k : Kind) (c : Char) : Bool :=
  k.isSeparator c || c == '?' || c == '#'

-- Blanks and controls around a text do not belong to it.
def trimmed (text : List Char) : List Char :=
  ((text.dropWhile (· ≤ ' ')).reverse.dropWhile (· ≤ ' ')).reverse

def isSchemeChar (c : Char) : Bool :=
  isLetter c || c.isDigit || c == '+' || c == '-' || c == '.'

-- Reads a scheme and its colon. Schemes are kept in lower case, without the breaks.
def readScheme (cs : List Char) : Option (List Char × List Char) :=
  let belongs (c : Char) : Bool := isSchemeChar c || isBreak c
  match withoutBreaks (cs.takeWhile belongs), cs.dropWhile belongs with
  | c :: scheme, ':' :: rest =>
    if isLetter c then some ((c :: scheme).map Char.toLower, rest) else none
  | _, _ => none

/-! ## The authority -/

/-- Host and port, and whether a user name or a password stood before them. -/
structure Authority where
  host : List Char
  port : Option Nat := none
  hasUser : Bool := false
  deriving DecidableEq, Repr

-- What stands before and behind the last at sign.
def splitUser (text : List Char) : Option (List Char × List Char) :=
  if text.contains '@' then
    let behind := (text.reverse.takeWhile (· ≠ '@')).reverse
    some (text.take (text.length - behind.length - 1), behind)
  else none

-- The host up to its end or its port; colons between brackets belong to it.
def hostText (k : Kind) : (inBrackets : Bool) → List Char → List Char
  | _, [] => []
  | inBrackets, c :: cs =>
    if k.endsAuthority c || (c == ':' && !inBrackets) then []
    else c :: hostText k ((inBrackets || c == '[') && c != ']') cs

-- Reads the digits of a port. Gives no port where it is the default or has no digits.
def readPort (scheme : List Char) (cs : List Char) : Except Refusal (Option Nat × List Char) :=
  let digits := cs.takeWhile Char.isDigit
  let rest := cs.dropWhile Char.isDigit
  let n := Text.ofDigits digits
  if 65535 < n then .error .badPort
  else
    match rest with
    | c :: _ =>
      if c == '/' || c == '\\' || c == '?' || c == '#' then .ok (port n digits, rest)
      else .error .badPort
    | [] => .ok (port n digits, rest)
where
  port (n : Nat) (digits : List Char) : Option Nat :=
    if digits.isEmpty || defaultPort? (String.ofList scheme) == some n then none else some n

-- Reads host and port. A host may be missing under other schemes, if it has no port.
def readHost (readDomain : DomainReader) (k : Kind) (scheme : List Char) (hasUser : Bool)
    (cs : List Char) : Except Refusal (Authority × List Char) := do
  let text := hostText k false cs
  let rest := cs.drop text.length
  if text.isEmpty && (k == .special || hasUser || rest.head? == some ':') then throw .emptyHost
  let host ← if k == .special then specialHost readDomain text else otherHost text
  match rest with
  | ':' :: rest =>
    let (port, rest) ← readPort scheme rest
    return ({ host, port, hasUser }, rest)
  | rest => return ({ host, hasUser }, rest)

-- Reads what stands behind the slashes of a scheme.
def readAuthority (readDomain : DomainReader) (k : Kind) (scheme : List Char) (cs : List Char) :
    Except Refusal (Authority × List Char) :=
  let text := cs.takeWhile (!k.endsAuthority ·)
  match splitUser text with
  | none => readHost readDomain k scheme false cs
  | some (user, _) =>
    let behind := cs.drop (user.length + 1)
    if user.isEmpty then
      if behind.head?.any k.endsAuthority then .error .emptyHost
      else readHost readDomain k scheme false behind
    else readHost readDomain k scheme (user != [':']) behind

/-! ## Path, query and fragment -/

-- What stands behind a separator, before which there may be breaks.
def behindSeparator? (k : Kind) (cs : List Char) : Option (List Char) :=
  match cs.dropWhile isBreak with
  | c :: rest => if k.isSeparator c then some rest else none
  | [] => none

/-- The host and path of a file, and what stands behind them; the text still has its breaks. A drive at
the start of the path takes the place of the host. -/
def readFile (readDomain : DomainReader) (cs : List Char) :
    Except Refusal (List Char × List Char × List Char) := do
  let text := cs.takeWhile (!Kind.file.endsAuthority ·)
  let name := withoutBreaks text
  let (host, rest) ←
    if name.isEmpty || isDriveLetter name then pure ([], cs)
    else do
      let host ← specialHost readDomain name
      pure (if host = "localhost".toList then [] else host, cs.drop text.length)
  let path := rest.takeWhile fun c => c ≠ '?' && c ≠ '#'
  let tail := rest.dropWhile fun c => c ≠ '?' && c ≠ '#'
  let path := if host.isEmpty then path else dropSeparator Kind.file.isSeparator path
  let trail := followPath true Kind.file.isSeparator path
  let host := if trail.onDrive then [] else host
  return (host, '/' :: (joinBy '/' trail.segments).dropWhile (· = '/'), withoutBreaks tail)

def readPath (k : Kind) (text : List Char) : List Char :=
  if k == .other && text.isEmpty then []
  else pathText (followPath false k.isSeparator (dropSeparator k.isSeparator text)).segments

-- Reads a query, which a question mark opens, and a fragment, which a number sign opens.
def readTail (k : Kind) (cs : List Char) : Option String × Option String :=
  let fragment (cs : List Char) : Option String :=
    match cs with
    | '#' :: rest => some (String.ofList (escape escapedInFragment rest))
    | _ => none
  match cs with
  | '?' :: rest =>
    let set := if k == .other then escapedInQuery else escapedInSpecialQuery
    let query := rest.takeWhile (· ≠ '#')
    (some (String.ofList (escape set query)), fragment (rest.dropWhile (· ≠ '#')))
  | cs => (none, fragment cs)

/-! ## Whole URIs -/

-- Reads everything behind the scheme, with its breaks; gives also whether there was user information.
def readRest (readDomain : DomainReader) (scheme : List Char) (cs : List Char) :
    Except Refusal (Uri × Bool) := do
  let k := kind scheme
  match k with
  | .file =>
    match (behindSeparator? k cs).bind (behindSeparator? k) with
    | some cs =>
      let (host, path, tail) ← readFile readDomain cs
      return (assemble k { host } path tail, false)
    | none => throw .noAuthority
  | .special =>
    let (authority, rest) ← readAuthority readDomain k scheme ((withoutBreaks cs).dropWhile k.isSeparator)
    return (finish k authority rest, authority.hasUser)
  | .other =>
    match withoutBreaks cs with
    | '/' :: '/' :: cs =>
      let (authority, rest) ← readAuthority readDomain k scheme cs
      return (finish k authority rest, authority.hasUser)
    | _ => throw .noAuthority
where
  assemble (k : Kind) (authority : Authority) (path tail : List Char) : Uri :=
    let (query, fragment) := readTail k tail
    { scheme := String.ofList scheme
      host := String.ofList authority.host
      port := authority.port
      path := String.ofList path
      query
      fragment }
  finish (k : Kind) (authority : Authority) (rest : List Char) : Uri :=
    let isPath (c : Char) : Bool := c ≠ '?' && c ≠ '#'
    assemble k authority (readPath k (rest.takeWhile isPath)) (rest.dropWhile isPath)

-- Whether the text spells out a scheme of this length and two slashes behind its colon.
def spellsAuthority (text : List Char) (scheme : String) : Bool :=
  ((text.dropWhile Text.isBlank).drop scheme.length).take 3 == [':', '/', '/']

def read (readDomain : DomainReader) (text : List Char) : Except Refusal Uri := do
  match readScheme (trimmed text) with
  | none => throw .relative
  | some (scheme, rest) =>
    let (uri, hasUser) ← readRest readDomain scheme rest
    if !spellsAuthority text uri.scheme then throw .noAuthority
    if hasUser then throw .userInformation
    return uri

-- Reads a URI that has an authority and no user information.
def parseWith (readDomain : DomainReader) (text : String) : Except Fault Uri :=
  match read readDomain text.toList with
  | .ok uri => .ok uri
  | .error refusal => .error (.invalidUri (text ++ ": " ++ refusal.message))

-- Reads a URI in which a domain is ASCII.
def parse (text : String) : Except Fault Uri :=
  parseWith asciiDomain text

/-! ## Parts -/

-- The port that is meant: the one given, else the default of the scheme, else none, which is zero.
def effectivePort (u : Uri) : Nat :=
  (u.port.or (defaultPort? u.scheme)).getD (if u.scheme = "ipp" then 631 else 0)

-- The path, if it is more than a slash.
def path? (u : Uri) : Option String :=
  if u.path = "" || u.path = "/" then none else some u.path

def lastSegment (path : List Char) : List Char :=
  (path.reverse.takeWhile (· ≠ '/')).reverse

def beforeLastSegment (path : List Char) : List Char :=
  ((path.reverse.dropWhile (· ≠ '/')).drop 1).reverse

def nonEmpty? (cs : List Char) : Option String :=
  if cs.isEmpty then none else some (String.ofList cs)

def dirname? (u : Uri) : Option String :=
  u.path?.bind fun path => nonEmpty? (beforeLastSegment path.toList)

def basename? (u : Uri) : Option String :=
  u.path?.bind fun path => nonEmpty? (lastSegment path.toList)

-- The form that every spelling of the URI has.
def toText (u : Uri) : String :=
  u.scheme ++ "://" ++ u.host ++ (u.port.map fun n => ":" ++ Text.decimal n).getD "" ++ u.path ++
    (u.query.map ("?" ++ ·)).getD "" ++ (u.fragment.map ("#" ++ ·)).getD ""

end Uri
end Ipp
