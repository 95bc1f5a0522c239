import Ipp.Exchange.Reply

/-!
# Echoing a request

Every attribute of the request is sent back in its own group.
-/

namespace Ipp.Exchange

/-- Whether `a` starts another object of the group that the attribute before it is in. -/
def startsObject (before : Option Attribute) (a : Attribute) : Bool :=
  before.any fun b => b.group == a.group && b.block != a.block

/-- Copies attributes of the request into the reply and claims them. -/
def echoBehind (before : Option Attribute) : List Attribute → Action Unit
  | [] => pure ()
  | a :: rest => do
    if startsObject before a then queueing (·.insertEnd a.group)
    queueing (Queue.addCopy a.group a)
    let _ ← modifyGet (claim a.group a.tag a.name)
    echoBehind (some a) rest

def echo : Action Nat := do
  let attributes := (← get).request
  echoBehind none attributes
  return attributes.length

end Ipp.Exchange
