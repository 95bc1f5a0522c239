/-!
# Message headers

The first eight bytes of a request: version, operation and request number.
-/

namespace Ipp

structure Header where
  major : UInt8 := 0
  minor : UInt8 := 0
  operation : UInt16 := 0
  requestId : UInt32 := 0
  deriving DecidableEq, Repr

def Header.length : Nat := 8

/-- The version of a reply: that of the request where it is 1.0 or 1.1, else 1.1. -/
def Header.replyVersion (h : Header) : UInt8 × UInt8 :=
  if h.major = 1 then (1, min h.minor 1) else (1, 1)

end Ipp
