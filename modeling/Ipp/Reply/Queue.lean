import Ipp.Attribute

/-!
# Queued replies

The attributes that a reply will carry, in one list for each group. In the printer and job groups, which
describe several objects, a marker ends one object.
-/

namespace Ipp

inductive Entry where
  | attribute (a : Attribute)
  -- The attributes that follow describe another object.
  | endOfObject
  deriving DecidableEq, Repr

structure Queue where
  operation : List Entry := []
  printer : List Entry := []
  job : List Entry := []
  unsupported : List Entry := []
  deriving DecidableEq, Repr

namespace Queue

def list (q : Queue) : Group → List Entry
  | .operation => q.operation
  | .printer => q.printer
  | .job => q.job
  | .unsupported => q.unsupported

def append (q : Queue) (g : Group) (e : Entry) : Queue :=
  match g with
  | .operation => { q with operation := q.operation ++ [e] }
  | .printer => { q with printer := q.printer ++ [e] }
  | .job => { q with job := q.job ++ [e] }
  | .unsupported => { q with unsupported := q.unsupported ++ [e] }

def insert (q : Queue) (a : Attribute) : Queue :=
  q.append a.group (.attribute a)

/-- Queues a marker. Only printer and job groups describe several objects. -/
def insertEnd (q : Queue) (g : Group) : Except Fault Queue :=
  match g with
  | .job | .printer => .ok (q.append g .endOfObject)
  | .operation | .unsupported => .error (.unhandledGroup g.delimiter)

def attributes (q : Queue) (g : Group) : List Attribute :=
  (q.list g).filterMap fun
    | .attribute a => some a
    | .endOfObject => none

theorem list_append (q : Queue) (g h : Group) (e : Entry) :
    (q.append g e).list h = q.list h ++ (if g = h then [e] else []) := by
  cases g <;> cases h <;> simp [append, list]

end Queue
end Ipp
