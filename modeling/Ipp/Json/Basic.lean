import Ipp.Text.Digits

/-!
# JSON values and their text

The values that a trace shows, and how they are written: without blanks, with every control character
escaped and every other character as it stands.
-/

namespace Ipp

inductive Json where
  | bool (b : Bool)
  | int (n : Int)
  | text (s : String)
  | list (items : List Json)
  | object (fields : List (String × Json))

namespace Json

/-! ## Texts -/

-- A character inside a JSON text.
def escape (c : Char) : List Char :=
  if c = '"' then ['\\', '"']
  else if c = '\\' then ['\\', '\\']
  else if c = '\x08' then ['\\', 'b']
  else if c = '\t' then ['\\', 't']
  else if c = '\n' then ['\\', 'n']
  else if c = '\x0c' then ['\\', 'f']
  else if c = '\r' then ['\\', 'r']
  else if c < ' ' then
    ['\\', 'u', '0', '0', Nat.digitChar (c.toNat / 16), Nat.digitChar (c.toNat % 16)]
  else [c]

def quoteChars (s : String) : List Char :=
  '"' :: s.toList.flatMap escape ++ ['"']

/-! ## Values -/

def boolText (b : Bool) : String :=
  if b then "true" else "false"

def commaSeparated : List (List Char) → List Char
  | [] => []
  | [part] => part
  | part :: parts => part ++ ',' :: commaSeparated parts

mutual

def chars : Json → List Char
  | .bool b => (boolText b).toList
  | .int n => (Text.decimalInt n).toList
  | .text s => quoteChars s
  | .list items => '[' :: commaSeparated (charsOfItems items) ++ [']']
  | .object fields => '\x7b' :: commaSeparated (charsOfFields fields) ++ ['\x7d']

def charsOfItems : List Json → List (List Char)
  | [] => []
  | item :: items => chars item :: charsOfItems items

def charsOfFields : List (String × Json) → List (List Char)
  | [] => []
  | (key, value) :: fields => (quoteChars key ++ ':' :: chars value) :: charsOfFields fields

end

def render (j : Json) : String :=
  String.ofList j.chars

end Json
end Ipp
