import Ipp.Exchange.Basic
import Ipp.Uri.Basic

/-!
# Claims

A caller that understands an attribute of the request claims it, which takes it out of the request. What
is present but cannot be used is demoted: it goes into the unsupported group of the reply.
-/

namespace Ipp

def takeFirst {α : Type} (p : α → Bool) : List α → Option (α × List α)
  | [] => none
  | a :: rest =>
    if p a then some (a, rest) else (takeFirst p rest).map fun (found, rest) => (found, a :: rest)

namespace Exchange

/-- The first attribute for this key that is still in the request. -/
def find? (e : Exchange) (group : Group) (tag : ValueTag) (name : String) : Option Attribute :=
  e.request.find? (·.isFor group tag name)

/-- Takes an attribute, however many values it has. -/
def claim (group : Group) (tag : ValueTag) (name : String) : Query (Option Attribute) := fun e =>
  match takeFirst (·.isFor group tag name) e.request with
  | some (a, request) => (some a, { e with request })
  | none => (none, e)

/-- Queues an attribute as unsupported. -/
def demote (e : Exchange) (a : Attribute) : Exchange :=
  { e with queue := e.queue.insert { a with group := .unsupported } }

/-- Reported when an attribute has no value or several. -/
def notSingle (name : String) (a : Attribute) : LogEvent :=
  { level := .warn
    message := "expected a single value"
    fields := [("name", name), ("values", Text.decimal a.values.length)] }

/-- Takes an attribute that must have exactly one value. -/
def claimSingle (group : Group) (tag : ValueTag) (name : String) : Query (Option Attribute) := fun e =>
  match claim group tag name e with
  | (none, e) => (none, e)
  | (some a, e) =>
    if a.isSingle then (some a, e) else (none, (e.note (notSingle name a)).demote a)

/-- Takes the value of a single-valued attribute that `accept` accepts. -/
def claimValue {α : Type} (accept : Value → Option α) (group : Group) (tag : ValueTag)
    (name : String) : Query (Option α) := fun e =>
  match claimSingle group tag name e with
  | (none, e) => (none, e)
  | (some a, e) =>
    match a.values.head?.bind accept with
    | some v => (some v, e)
    | none => (none, e.demote a)

/-! ## Kinds of values -/

def claimString (group : Group) (tag : ValueTag) (name : String) : Query (Option String) :=
  claimValue Value.string? group tag name

/-- Reported when a text is no URI. -/
def unusableUri (name : String) (fault : Fault) : LogEvent :=
  { level := .warn, message := "unusable URI", fields := [("name", name), ("error", fault.message)] }

def claimUri (group : Group) (name : String) : Query (Option Uri) := fun e =>
  match claimSingle group .uri name e with
  | (none, e) => (none, e)
  | (some a, e) =>
    match (a.values.head?.bind Value.string?).map (Uri.parseWith e.readDomain) with
    | some (.ok uri) => (some uri, e)
    | some (.error fault) => (none, (e.note (unusableUri name fault)).demote a)
    | none => (none, e.demote a)

def positive? (v : Value) : Option Int32 :=
  v.integer?.filter (0 < ·)

def claimPositive (group : Group) (name : String) : Query (Option Int32) :=
  claimValue positive? group .integer name

def claimEnum (group : Group) (name : String) : Query (Option Int32) :=
  claimValue Value.integer? group .enumeration name

/-- A boolean, or `default` when it is missing or unusable. -/
def claimBoolean (group : Group) (name : String) (default : Bool) : Query Bool := fun e =>
  let (found, e) := claimValue Value.boolean? group .boolean name e
  (found.getD default, e)

def allowed? (allowed : List String) (v : Value) : Option String :=
  v.string?.filter (allowed.contains ·)

def claimKeyword (group : Group) (name : String) (allowed : List String) : Query (Option String) :=
  claimValue (allowed? allowed) group .keyword name

/-! ## Identity -/

/-- Reported when the request names another user than the transport has authenticated. -/
def userMismatch (claimed remote : String) : LogEvent :=
  { level := .warn
    message := "requesting-user-name does not match authenticated user"
    fields := [("requesting_user_name", claimed), ("remote_user", remote)] }

/-- Who the request acts for, given the user it claims and the authenticated one; and whether the two
disagree. -/
def actingUser (authenticated : Bool) : (claimed remote : Option String) → String
  | some claimed, some remote =>
    if claimed ≠ remote then "nobody-inconsistent" else if authenticated then remote else claimed
  | claimed, remote =>
    if authenticated then remote.getD "nobody-unauthenticated" else claimed.getD "nobody"

/-- Who the request acts for, as user and address. When `authenticated` is set only the transport's word
counts; otherwise the name in the request is trusted, unless the transport says otherwise. -/
def claimIdentity (authenticated : Bool) : Query String := fun e =>
  let (claimed, e) := claimString .operation .name "requesting-user-name" e
  let e :=
    match claimed, e.remoteUser with
    | some claimed, some remote => if claimed ≠ remote then e.note (userMismatch claimed remote) else e
    | _, _ => e
  (actingUser authenticated claimed e.remoteUser ++ "@" ++ e.remoteAddr.getD "?", e)

end Exchange
end Ipp
