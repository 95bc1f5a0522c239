import Ipp.Capabilities
import Ipp.Exchange.Claim

/-!
# Well-known attributes

Operations on printers, jobs, devices and driver files share a handful of attributes. One pass over the
operation group, and over the printer group where a printer is made, files the ones that the operation
understands, collects the keywords of `requested-attributes`, and demotes the rest.
-/

namespace Ipp

/-- Where a well-known attribute goes. -/
inductive Field where
  | ignored
  | requested
  | printerUri
  | printerName
  | jobUri
  | jobId
  | deviceClass
  | ppdMake
  | limit
  | deviceUri
  | ppdName
  deriving DecidableEq, Repr

/-- The key of a well-known attribute, and what it takes to understand it. -/
structure Field.Rule where
  field : Field
  group : Group
  tag : ValueTag
  name : String
  -- Nothing is needed, or one of these capabilities.
  needs : Option Capabilities := none

namespace Field

def rules : List Rule :=
  [{ field := ignored, group := .operation, tag := .charset, name := "attributes-charset" },
   { field := ignored, group := .operation, tag := .naturalLanguage,
     name := "attributes-natural-language" },
   { field := requested, group := .operation, tag := .keyword, name := "requested-attributes" },
   { field := printerUri, group := .operation, tag := .uri, name := "printer-uri",
     needs := some { printer := true, job := true } },
   { field := printerName, group := .operation, tag := .name, name := "printer-name",
     needs := some { printer := true } },
   { field := jobUri, group := .operation, tag := .uri, name := "job-uri",
     needs := some { job := true } },
   { field := jobId, group := .operation, tag := .integer, name := "job-id",
     needs := some { job := true } },
   { field := deviceClass, group := .operation, tag := .keyword, name := "device-class",
     needs := some { devices := true } },
   { field := ppdMake, group := .operation, tag := .text, name := "ppd-make",
     needs := some { ppds := true } },
   { field := limit, group := .operation, tag := .integer, name := "limit",
     needs := some { printers := true, jobs := true, devices := true, ppds := true } },
   { field := deviceUri, group := .printer, tag := .uri, name := "device-uri",
     needs := some { pcreate := true } },
   { field := ppdName, group := .printer, tag := .name, name := "ppd-name",
     needs := some { pcreate := true } }]

-- Whether a rule holds for an attribute under these capabilities.
def Rule.applies (r : Rule) (caps : Capabilities) (a : Attribute) : Bool :=
  a.isFor r.group r.tag r.name && r.needs.all caps.intersects

-- Where an attribute goes, if the operation understands it.
def of? (caps : Capabilities) (a : Attribute) : Option Field :=
  (rules.find? (·.applies caps a)).map (·.field)

end Field

/-- The well-known attributes of a request. -/
structure WellKnown where
  printerUri : Option Uri := none
  printerName : Option String := none
  jobUri : Option Uri := none
  jobId : Option Int32 := none
  deviceClass : Option String := none
  ppdMake : Option String := none
  limit : Option Int32 := none
  deviceUri : Option String := none
  ppdName : Option String := none
  -- The keywords of `requested-attributes`, each once.
  requested : List String := []
  -- Those of them that the operation has asked about.
  asked : List String := []
  deriving DecidableEq, Repr

namespace WellKnown

/-! ## Classification -/

def request (w : WellKnown) (keywords : List String) : WellKnown :=
  { w with
    requested := keywords.foldl (fun ks k => if ks.contains k then ks else ks ++ [k]) w.requested }

-- Files the only value of an attribute. Only a URI that cannot be used is not filed.
def file (w : WellKnown) (readDomain : Uri.DomainReader) (field : Field) (v : Value) :
    Option WellKnown :=
  match field with
  | .ignored | .requested => some w
  | .printerUri => (uri? v).map fun u => { w with printerUri := some u }
  | .jobUri => (uri? v).map fun u => { w with jobUri := some u }
  | .jobId => some { w with jobId := v.integer? }
  | .limit => some { w with limit := v.integer? }
  | .printerName => some { w with printerName := v.string? }
  | .deviceClass => some { w with deviceClass := v.string? }
  | .ppdMake => some { w with ppdMake := v.string? }
  | .deviceUri => some { w with deviceUri := v.string? }
  | .ppdName => some { w with ppdName := v.string? }
where
  uri? (v : Value) : Option Uri :=
    v.string?.bind fun s => (Uri.parseWith readDomain s).toOption

def examine (caps : Capabilities) (state : WellKnown × Exchange) (a : Attribute) :
    WellKnown × Exchange :=
  let (w, e) := state
  match Field.of? caps a with
  | none => (w, e.demote a)
  | some .ignored => (w, e)
  | some .requested => (w.request (a.values.filterMap Value.string?), e)
  | some field =>
    match a.only?.bind (w.file e.readDomain field) with
    | some w => (w, e)
    | none => (w, e.demote a)

-- Whether attributes of the group are examined.
def isExamined (caps : Capabilities) (a : Attribute) : Bool :=
  a.group == .operation || (caps.pcreate && a.group == .printer)

-- Takes all examined attributes out of the request and files or demotes each.
def classify (caps : Capabilities) (e : Exchange) : WellKnown × Exchange :=
  (e.request.filter (isExamined caps)).foldl (examine caps)
    ({}, { e with request := e.request.filter (!isExamined caps ·) })

/-! ## What is requested -/

-- Whether the request asks for everything, which it does also when it names nothing.
def wantsAll (w : WellKnown) : Bool :=
  w.requested.isEmpty || w.requested.contains "all"

/-- Whether an attribute is asked for. A keyword that was asked about counts as understood, unless
everything is wanted. -/
def isRequested (name : String) (w : WellKnown) : Bool × WellKnown :=
  if w.wantsAll then (true, w)
  else if w.requested.contains name then (true, { w with asked := name :: w.asked })
  else (false, w)

def unasked (w : WellKnown) : List String :=
  w.requested.filter (!w.asked.contains ·)

-- Reports every keyword that nobody has asked about.
def release (w : WellKnown) (e : Exchange) : Exchange :=
  { e with log := LogEvent.reportKeywords w.unasked e.log }

/-! ## What is addressed -/

def destination? (w : WellKnown) : Option String :=
  w.printerName.or (w.printerUri.bind Uri.basename?)

-- A number above zero, of at most thirty-one bits, with or without a plus sign.
def jobNumber? (s : String) : Option Int32 := do
  let cs := s.toList
  let n ← Text.natOfDecimal? (if cs.head? = some '+' then cs.tail else cs)
  if 0 < n && n < 0x80000000 then some (Int32.ofNat n) else none

def job? (w : WellKnown) : Option Int32 :=
  w.jobId.or ((w.jobUri.bind Uri.basename?).bind jobNumber?)

end WellKnown
end Ipp
