/-!
# Input streams

An input is the bytes that it will give and a script of how: how many of them one call gives, and where
it is interrupted or fails. Nothing is given twice.
-/

namespace Ipp

/-- What the input does on one call. -/
inductive ReadEvent where
  -- Gives at most this many bytes.
  | upTo (n : Nat)
  | interrupted
  | fault (text : String)
  deriving DecidableEq, Repr

structure Source where
  -- The bytes not given yet.
  rest : List UInt8
  -- What happens on the next calls; afterwards every call gives what it is asked for.
  script : List ReadEvent := []
  -- The number of bytes given.
  taken : Nat := 0
  deriving DecidableEq, Repr

namespace Source

def give (s : Source) (n : Nat) (script : List ReadEvent) : List UInt8 × Source :=
  let bytes := s.rest.take n
  (bytes, { rest := s.rest.drop n, script, taken := s.taken + bytes.length })

theorem give_append_rest (s : Source) (n : Nat) (script : List ReadEvent) :
    (s.give n script).1 ++ (s.give n script).2.rest = s.rest :=
  List.take_append_drop n s.rest

theorem taken_give (s : Source) (n : Nat) (script : List ReadEvent) :
    (s.give n script).2.taken = s.taken + (s.give n script).1.length :=
  rfl

/-- Asks for at most `want` bytes, again after every interruption. -/
def readBy (s : Source) (want : Nat) : List ReadEvent → Except String (List UInt8) × Source
  | [] =>
    let (bytes, s) := s.give want []
    (.ok bytes, s)
  | .interrupted :: script => s.readBy want script
  | .fault text :: script => (.error text, { s with script })
  | .upTo n :: script =>
    let (bytes, s) := s.give (min n want) script
    (.ok bytes, s)

/-- Reads at most `want` bytes. No bytes at all mean that the input has ended. -/
def read (s : Source) (want : Nat) : Except String (List UInt8) × Source :=
  s.readBy want s.script

end Source
end Ipp
