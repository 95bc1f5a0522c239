import Ipp.Fault
import Ipp.Json.Basic
import Ipp.Json.Reading
import Ipp.Text.Utf8

/-!
# Configuration

The settings of an exchange, and their file: a JSON object with one field for each setting. A field that
is missing takes its default, and fields of other names are passed over.
-/

namespace Ipp

structure Config where
  -- Stands in front of relative and templated URIs in replies.
  root : String := "ipp://localhost"
  -- The size of each buffer, in bytes.
  bufferSize : UInt64 := 512
  -- Whether a reply starts with a header line.
  emitHeader : Bool := true
  -- Whether every request is logged in full.
  traceRequests : Bool := false
  deriving DecidableEq, Repr

namespace Config

/-- The root under which a server is reached. On the port that belongs to the `ipp` scheme the port is
left out; on any other it is an `http` root. -/
def rootFor (server port script : String) : String :=
  let script := script.toList.dropWhile (· = '/')
  let path := if script.isEmpty then "" else "/" ++ String.ofList script
  if port = "631" then "ipp://" ++ server ++ path
  else "http://" ++ server ++ ":" ++ port ++ path

/-! ## Writing -/

def fieldLine (key : String) (value : List Char) : List Char :=
  [' ', ' '] ++ Json.quoteChars key ++ [':', ' '] ++ value

def chars (c : Config) : List Char :=
  ['\x7b', '\n'] ++
  fieldLine "root" (Json.quoteChars c.root) ++ [',', '\n'] ++
  fieldLine "buffer_size" (Text.decimal c.bufferSize.toNat).toList ++ [',', '\n'] ++
  fieldLine "emit_header" (Json.boolText c.emitHeader).toList ++ [',', '\n'] ++
  fieldLine "trace_requests" (Json.boolText c.traceRequests).toList ++ ['\n', '\x7d']

def save (c : Config) : String :=
  String.ofList c.chars

/-! ## Reading -/

structure Given where
  root : Option String := none
  bufferSize : Option UInt64 := none
  emitHeader : Option Bool := none
  traceRequests : Option Bool := none
  deriving DecidableEq

def Given.complete (g : Given) : Config :=
  let d : Config := {}
  { root := g.root.getD d.root
    bufferSize := g.bufferSize.getD d.bufferSize
    emitHeader := g.emitHeader.getD d.emitHeader
    traceRequests := g.traceRequests.getD d.traceRequests }

-- Reads a number of at most 64 bits.
def readSize (cs : List Char) : Option (UInt64 × List Char) := do
  let (n, cs) ← Json.readNat cs
  if n < UInt64.size then some (UInt64.ofNat n, cs) else none

-- Reads the value of the field `key`. No setting may be given twice.
def readField (g : Given) (key : String) (cs : List Char) : Option (Given × List Char) :=
  if key = "root" then
    if g.root.isSome then none
    else (Json.readText cs).map fun (v, cs) => ({ g with root := some v }, cs)
  else if key = "buffer_size" then
    if g.bufferSize.isSome then none
    else (readSize cs).map fun (v, cs) => ({ g with bufferSize := some v }, cs)
  else if key = "emit_header" then
    if g.emitHeader.isSome then none
    else (Json.readBool cs).map fun (v, cs) => ({ g with emitHeader := some v }, cs)
  else if key = "trace_requests" then
    if g.traceRequests.isSome then none
    else (Json.readBool cs).map fun (v, cs) => ({ g with traceRequests := some v }, cs)
  else (Json.skipValue cs).map fun cs => (g, cs)

-- Reads fields and the closing brace. `bound` is at least the number of fields.
def readFields : (bound : Nat) → Given → List Char → Option (Given × List Char)
  | 0, _, _ => none
  | bound + 1, g, cs => do
    let (key, cs) ← Json.readKey cs
    let (g, cs) ← readField g key cs
    match Json.skipBlanks cs with
    | '\x7d' :: rest => some (g, rest)
    | ',' :: rest => readFields bound g (Json.skipBlanks rest)
    | _ => none

-- The order of the settings in a file that is a list.
def fieldOrder : List String :=
  ["root", "buffer_size", "emit_header", "trace_requests"]

/-- Reads the values of the named settings, of which the last ones may be missing, and the closing
bracket. -/
def readItems : List String → Given → List Char → Option (Given × List Char)
  | [], _, _ => none
  | key :: keys, g, cs => do
    let (g, cs) ← readField g key cs
    match Json.skipBlanks cs with
    | ']' :: rest => some (g, rest)
    | ',' :: rest => readItems keys g (Json.skipBlanks rest)
    | _ => none

-- Reads an object, or a list of at most four values.
def readGiven (cs : List Char) : Option (Given × List Char) :=
  match cs with
  | '\x7b' :: rest =>
    match Json.skipBlanks rest with
    | '\x7d' :: rest => some (({} : Given), rest)
    | rest => readFields rest.length ({} : Given) rest
  | '[' :: rest =>
    match Json.skipBlanks rest with
    | ']' :: rest => some (({} : Given), rest)
    | rest => readItems fieldOrder ({} : Given) rest
  | _ => none

-- The settings in the text of a file, which holds nothing else but blanks.
def ofText? (text : String) : Option Config := do
  let (given, rest) ← readGiven (Json.skipBlanks text.toList)
  if (Json.skipBlanks rest).isEmpty then some given.complete else none

def load (file : Option (List UInt8)) : Except Fault Config :=
  match file with
  | none => .error (.io "no such file")
  | some bytes =>
    match Text.ofUtf8? bytes with
    | none => .error (.io "the file is not UTF-8")
    | some text =>
      match ofText? text with
      | none => .error .malformedConfig
      | some config => .ok config

end Config
end Ipp
