import Ipp.Attribute

/-!
# Traces

A parsed request as one JSON value: a list of blocks, each with its group and its attributes in order.
-/

namespace Ipp.Trace

-- Attributes that stand next to each other and came in the same block, as one run.
def runs : List Attribute → List (List Attribute)
  | [] => []
  | a :: rest =>
    match runs rest with
    | (b :: run) :: more => if a.block = b.block then (a :: b :: run) :: more else [a] :: (b :: run) :: more
    | more => [a] :: more

-- A run under the group of its first attribute.
def block : List Attribute → Json
  | [] => .object []
  | a :: rest =>
    .object [("attributes", .list ((a :: rest).map Attribute.toJson)), ("group", .text a.group.word)]

def render (attributes : List Attribute) : Json :=
  .list ((runs attributes).map block)

end Ipp.Trace
