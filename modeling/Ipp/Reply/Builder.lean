import Ipp.Reply.Queue

/-!
# Building replies

Attributes are queued by the kind of their values. The tag has to be one of the family that the values
are encoded in, and there has to be at least one value; otherwise nothing is queued.
-/

namespace Ipp

/-- What the encoding of a tag is called in a fault. -/
def ValueTag.familyTitle (t : ValueTag) : String :=
  match t.family with
  | .integer => "integer"
  | .string => "string"
  | .boolean => "boolean"
  | .other => t.title

namespace Queue

/-- Queues an attribute of the family `want`; `builder` is the name of the call, for the fault. -/
def add (builder : String) (want : Family) (g : Group) (tag : ValueTag) (name : String)
    (values : List Value) (q : Queue) : Except Fault Queue :=
  if tag.family ≠ want then .error (.wrongFamily builder name tag.familyTitle)
  else if values.isEmpty then .error (.emptyAttribute name)
  else .ok (q.insert { name, group := g, tag, values })

def addInteger (g : Group) (tag : ValueTag) (name : String) (n : Int32) : Queue → Except Fault Queue :=
  add "add_integer" .integer g tag name [.integer n]

def addIntegers (g : Group) (tag : ValueTag) (name : String) (ns : List Int32) :
    Queue → Except Fault Queue :=
  add "add_integers" .integer g tag name (ns.map .integer)

def addString (g : Group) (tag : ValueTag) (name : String) (s : String) : Queue → Except Fault Queue :=
  add "add_string" .string g tag name [.string s]

def addStrings (g : Group) (tag : ValueTag) (name : String) (ss : List String) :
    Queue → Except Fault Queue :=
  add "add_strings" .string g tag name (ss.map .string)

def addBoolean (g : Group) (tag : ValueTag) (name : String) (b : Bool) : Queue → Except Fault Queue :=
  add "add_boolean" .boolean g tag name [.boolean b]

/-- Queues an attribute that has a tag such as `no-value` in place of a value. -/
def addOutOfBand (g : Group) (tag : ValueTag) (name : String) (q : Queue) : Except Fault Queue :=
  if tag.isOutOfBand then .ok (q.insert { name, group := g, tag, values := [.bytes []] })
  else .error (.wrongFamily "add_out_of_band" name tag.title)

def isTemplateArgument : Value → Bool
  | .integer _ | .string _ => true
  | _ => false

/-- Queues texts that are made when the reply is written, by putting each argument into `pattern`. -/
def addTemplates (g : Group) (tag : ValueTag) (name pattern : String) (args : List Value) (q : Queue) :
    Except Fault Queue :=
  if tag.family ≠ .string then .error (.wrongFamily "add_templates" name tag.familyTitle)
  else if args.isEmpty then .error (.emptyAttribute name)
  else
    match args.find? (!isTemplateArgument ·) with
    | some bad => .error (.unhandledValueTag (name ++ " (" ++ bad.describe ++ ")") tag)
    | none => .ok (q.insert { name, group := g, tag, values := args, template := some pattern })

def addTemplate (g : Group) (tag : ValueTag) (name pattern : String) (arg : Value) :
    Queue → Except Fault Queue :=
  addTemplates g tag name pattern [arg]

def addCopy (g : Group) (a : Attribute) (q : Queue) : Except Fault Queue :=
  if a.values.isEmpty then .error (.emptyAttribute a.name)
  else .ok (q.insert { a with group := g, block := 0 })

/-- Queues the two attributes that open every operation group. -/
def addStandard (q : Queue) : Except Fault Queue := do
  let q ← addString .operation .charset "attributes-charset" "utf-8" q
  addString .operation .naturalLanguage "attributes-natural-language" "en" q

end Queue
end Ipp
