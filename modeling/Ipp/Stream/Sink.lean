/-!
# Output streams

An output is the bytes that it has accepted and a script of what it will do: how many of the bytes
offered one call accepts, where it is interrupted or fails, and how each flush ends.
-/

namespace Ipp

/-- What the output does on one call. -/
inductive WriteEvent where
  -- Accepts at most this many of the bytes offered.
  | upTo (n : Nat)
  | interrupted
  | fault (text : String)
  deriving DecidableEq, Repr

structure Sink where
  -- The bytes accepted, newest first.
  sent : List UInt8 := []
  -- What happens on the next calls; afterwards every call accepts all that is offered.
  script : List WriteEvent := []
  -- The next flush fails with this text.
  flushFault : Option String := none
  -- The same for the flushes behind it; afterwards every flush succeeds.
  laterFlushes : List (Option String) := []
  deriving DecidableEq, Repr

namespace Sink

/-- The bytes accepted, in order. -/
def bytes (s : Sink) : List UInt8 :=
  s.sent.reverse

def accept (s : Sink) (bytes : List UInt8) (script : List WriteEvent) : Sink :=
  { s with sent := bytes.reverse ++ s.sent, script }

@[simp] theorem bytes_accept (s : Sink) (bytes : List UInt8) (script : List WriteEvent) :
    (s.accept bytes script).bytes = s.bytes ++ bytes := by
  simp [accept, Sink.bytes]

/-- Why bytes offered were not all accepted. -/
inductive Refusal where
  -- A call accepted none of them.
  | tookNone
  | fault (text : String)
  deriving DecidableEq, Repr

/-- Offers the bytes, and then what is left of them, until all are accepted. -/
def offerBy (s : Sink) (bytes : List UInt8) : List WriteEvent → Except Refusal Unit × Sink
  | [] => (.ok (), s.accept bytes [])
  | event :: script =>
    if bytes.isEmpty then (.ok (), { s with script := event :: script })
    else
      match event with
      | .interrupted => s.offerBy bytes script
      | .fault text => (.error (.fault text), { s with script })
      | .upTo 0 => (.error .tookNone, { s with script })
      | .upTo n => (s.accept (bytes.take n) script).offerBy (bytes.drop n) script

def offer (s : Sink) (bytes : List UInt8) : Except Refusal Unit × Sink :=
  s.offerBy bytes s.script

/-- The output behind a flush, whether that fails or not. -/
def flushed (s : Sink) : Sink :=
  { s with flushFault := s.laterFlushes.head?.join, laterFlushes := s.laterFlushes.tail }

def flush (s : Sink) : Except String Unit × Sink :=
  match s.flushFault with
  | none => (.ok (), s.flushed)
  | some text => (.error text, s.flushed)

end Sink
end Ipp
