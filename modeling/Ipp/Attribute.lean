import Ipp.Value

/-!
# Attributes

A name with its values, as a request carries it or a reply will.
-/

namespace Ipp

structure Attribute where
  name : String
  group : Group
  tag : ValueTag
  values : List Value
  -- Each value is put into this pattern when the reply is written.
  template : Option String := none
  -- The ordinal of the group in the request that the attribute came in.
  block : Nat := 0
  deriving DecidableEq, Repr

namespace Attribute

def isSingle (a : Attribute) : Bool :=
  a.values.length == 1

def isFor (a : Attribute) (group : Group) (tag : ValueTag) (name : String) : Bool :=
  a.group == group && a.tag == tag && a.name == name

-- The only value, if there is exactly one.
def only? (a : Attribute) : Option Value :=
  match a.values with
  | [v] => some v
  | _ => none

-- Name, group, tag and values, and the template of an attribute that has one.
def toJson (a : Attribute) : Json :=
  .object (
    [("group", .text a.group.word), ("name", .text a.name), ("tag", .int a.tag.byte.toNat)] ++
    (a.template.map fun t => ("template", Json.text t)).toList ++
    [("values", .list (a.values.map Value.toJson))])

end Attribute
end Ipp
