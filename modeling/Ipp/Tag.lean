import Ipp.Text.Digits

/-!
# Tags

One byte opens every part of the attribute section of a message. Bytes up to `0x0F` are delimiters: four
of them open a group and one ends the section. Every other byte tags a value.
-/

namespace Ipp

/-! ## Groups -/

/-- The groups that an attribute can belong to. -/
inductive Group where
  | operation
  | job
  | printer
  | unsupported
  deriving DecidableEq, Repr

namespace Group

def all : List Group :=
  [operation, job, printer, unsupported]

def delimiter : Group → UInt8
  | operation => 0x01
  | job => 0x02
  | printer => 0x04
  | unsupported => 0x05

def ofDelimiter? (b : UInt8) : Option Group :=
  all.find? (·.delimiter == b)

def title : Group → String
  | operation => "operation-attributes"
  | job => "job-attributes"
  | printer => "printer-attributes"
  | unsupported => "unsupported-attributes"

def word : Group → String
  | operation => "operation"
  | job => "job"
  | printer => "printer"
  | unsupported => "unsupported"

theorem mem_all (g : Group) : g ∈ all := by
  cases g <;> simp [all]

theorem ofDelimiter?_delimiter (g : Group) : ofDelimiter? g.delimiter = some g := by
  cases g <;> rfl

theorem delimiter_of_ofDelimiter? {b : UInt8} {g : Group} (h : ofDelimiter? b = some g) :
    g.delimiter = b := by
  simpa using List.find?_some h

end Group

-- Ends the attribute section.
def endOfAttributes : UInt8 := 0x03

-- The last byte that is a delimiter.
def lastDelimiter : UInt8 := 0x0F

/-! ## Value tags -/

/-- How the values of a tag are encoded. Many tags share one encoding. -/
inductive Family where
  -- Four bytes, signed, most significant first.
  | integer
  -- Text.
  | string
  -- One byte.
  | boolean
  -- Bytes that are kept as they are.
  | other
  deriving DecidableEq, Repr

/-- The byte in front of a value. -/
structure ValueTag where
  byte : UInt8
  deriving DecidableEq, Repr

namespace ValueTag

def unsupportedValue : ValueTag := ⟨0x10⟩
def defaultValue : ValueTag := ⟨0x11⟩
def unknown : ValueTag := ⟨0x12⟩
def noValue : ValueTag := ⟨0x13⟩
def integer : ValueTag := ⟨0x21⟩
def boolean : ValueTag := ⟨0x22⟩
def enumeration : ValueTag := ⟨0x23⟩
def octetString : ValueTag := ⟨0x30⟩
def dateTime : ValueTag := ⟨0x31⟩
def resolution : ValueTag := ⟨0x32⟩
def rangeOfInteger : ValueTag := ⟨0x33⟩
def collection : ValueTag := ⟨0x34⟩
def textWithLanguage : ValueTag := ⟨0x35⟩
def nameWithLanguage : ValueTag := ⟨0x36⟩
def text : ValueTag := ⟨0x41⟩
def name : ValueTag := ⟨0x42⟩
def keyword : ValueTag := ⟨0x44⟩
def uri : ValueTag := ⟨0x45⟩
def uriScheme : ValueTag := ⟨0x46⟩
def charset : ValueTag := ⟨0x47⟩
def naturalLanguage : ValueTag := ⟨0x48⟩
def mimeMediaType : ValueTag := ⟨0x49⟩

-- The tags that have a name, with their names.
def registry : List (ValueTag × String) :=
  [(unsupportedValue, "unsupported"),
   (defaultValue, "default"),
   (unknown, "unknown"),
   (noValue, "no-value"),
   (integer, "integer"),
   (boolean, "boolean"),
   (enumeration, "enum"),
   (octetString, "octetString"),
   (dateTime, "dateTime"),
   (resolution, "resolution"),
   (rangeOfInteger, "rangeOfInteger"),
   (collection, "collection"),
   (textWithLanguage, "textWithLanguage"),
   (nameWithLanguage, "nameWithLanguage"),
   (text, "textWithoutLanguage"),
   (name, "nameWithoutLanguage"),
   (keyword, "keyword"),
   (uri, "uri"),
   (uriScheme, "urischeme"),
   (charset, "charset"),
   (naturalLanguage, "naturalLanguage"),
   (mimeMediaType, "mimeMediaType")]

def known : List ValueTag :=
  registry.map (·.1)

-- What a tag without a name is called.
def unrecognized : String := "unrecognized tag"

def title (t : ValueTag) : String :=
  (registry.lookup t).getD unrecognized

-- The tag with a registered name; any other name stands for `unsupported`.
def ofTitle (s : String) : ValueTag :=
  ((registry.find? (·.2 == s)).map (·.1)).getD unsupportedValue

def family (t : ValueTag) : Family :=
  if t ∈ [integer, enumeration] then .integer
  else if t ∈ [octetString, text, name, keyword, uri, uriScheme, charset, naturalLanguage,
      mimeMediaType] then .string
  else if t = boolean then .boolean
  else .other

-- Whether the tag stands in place of a value, as `no-value` does.
def isOutOfBand (t : ValueTag) : Bool :=
  0x10 ≤ t.byte && t.byte ≤ 0x1F

def describe (t : ValueTag) : String :=
  "0x" ++ Text.hexByte t.byte ++ " (" ++ t.title ++ ")"

end ValueTag

def tagTitle (b : UInt8) : String :=
  if b = endOfAttributes then "end-of-attributes"
  else if b ≤ lastDelimiter then ((Group.ofDelimiter? b).map Group.title).getD ValueTag.unrecognized
  else ValueTag.title ⟨b⟩

end Ipp
