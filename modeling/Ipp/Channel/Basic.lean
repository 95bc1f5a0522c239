import Ipp.Fault
import Ipp.Stream.Sink
import Ipp.Stream.Source

/-!
# The channel

The two streams of an exchange behind buffers. Input is read in blocks no larger than the buffer and
never past the declared length, so that the transport stands at the end of this request whatever was
asked for. Output is collected, and sent when the buffer is full or on demand.

Calls are state transitions that keep the state they reached when they fail.
-/

namespace Ipp

/-- What a channel reports of its own work. -/
inductive Channel.Event where
  -- A block of so many bytes was read. What a declared length leaves is told as well.
  | readBlock (bytes : Nat) (remaining : Option Nat)
  -- So many pending bytes were sent.
  | sentPending (bytes : Nat)
  -- The channel is being closed. So many bytes of the request were not delivered, as far as is known.
  | closing (leftover : Nat)
  deriving DecidableEq, Repr

structure Channel where
  source : Source
  sink : Sink
  -- Bytes of the request not taken from the input yet, when its length is known.
  remaining : Option Nat
  -- An input of unknown length has ended.
  ended : Bool := false
  -- The size of each buffer.
  size : Nat
  -- The delivered part of the block that was read last, newest byte first.
  behind : List UInt8 := []
  -- The part of that block that is still to be delivered.
  ahead : List UInt8 := []
  -- How many blocks were read.
  loads : Nat := 0
  -- Bytes to be sent.
  pending : Array UInt8 := #[]
  -- The byte behind the write buffer.
  guardByte : UInt8 := 42
  -- What was reported, newest first.
  events : List Channel.Event := []
  size_pos : 0 < size
  deriving DecidableEq

namespace Channel

/-- The value that a guard byte has while nothing ran over it. -/
def intactGuard : UInt8 := 42

/-- A channel over two streams. A buffer holds at least one byte. -/
def opened (source : Source) (sink : Sink) (declared : Option Nat) (bufferSize : Nat) : Channel :=
  { source, sink, remaining := declared, size := max bufferSize 1, size_pos := by omega }

abbrev Action := EStateM Fault Channel

/-- Bytes read but not delivered. -/
def buffered (c : Channel) : Nat :=
  c.ahead.length

/-- Whether nothing more can be read from the input. -/
def exhausted (c : Channel) : Bool :=
  c.ended || c.remaining == some 0

/-- Bytes of the request that are not delivered, where of those not taken yet only a declared length
tells. -/
def leftover (c : Channel) : Nat :=
  c.buffered + c.remaining.getD 0

/-- Bytes that the channel can still deliver, if the input gives all it has. -/
def left (c : Channel) : Nat :=
  c.ahead.length + c.source.rest.length

/-! ## Reading -/

/-- The most that one block may hold. -/
def want (c : Channel) : Nat :=
  match c.remaining with
  | some left => min left c.size
  | none => c.size

/-- Reads the next block in place of the one before. Gives its length, which is zero only at the end. -/
def refill : Action Nat := fun c =>
  if c.exhausted then .ok 0 c
  else
    match c.source.read c.want with
    | (.error text, source) => .error (.io text) { c with source }
    | (.ok bytes, source) =>
      if bytes.isEmpty && c.remaining.isSome then .error .prematureEof { c with source }
      else
        .ok bytes.length
          { c with
            source
            remaining := c.remaining.map (· - bytes.length)
            ended := bytes.isEmpty
            behind := []
            ahead := bytes
            loads := c.loads + 1
            events := .readBlock bytes.length (c.remaining.map (· - bytes.length)) :: c.events }

def takeByte (c : Channel) : Option (UInt8 × Channel) :=
  match c.ahead with
  | b :: ahead => some (b, { c with behind := b :: c.behind, ahead })
  | [] => none

def getByte : Action UInt8 := fun c =>
  match c.takeByte with
  | some (b, c) => .ok b c
  | none =>
    match refill c with
    | .error fault c => .error fault c
    | .ok _ c =>
      match c.takeByte with
      | some (b, c) => .ok b c
      | none => .error .dataRunoff c

/-- Reads `n` bytes behind those in `got`, which holds the newest first. -/
def getBytesOnto : (n : Nat) → (got : List UInt8) → Action (List UInt8)
  | 0, got => pure got.reverse
  | n + 1, got => do
    let b ← getByte
    getBytesOnto n (b :: got)

def getBytes (n : Nat) : Action (List UInt8) :=
  getBytesOnto n []

/-- Passes over what is left of the block. -/
def skipBlock (c : Channel) : Channel :=
  { c with behind := c.ahead.reverse ++ c.behind, ahead := [] }

/-- Delivers what is left of the block, or the next block. No bytes mean that the request has ended. -/
def getBlock : Action (List UInt8) := do
  if (← get).ahead.isEmpty then
    let _ ← refill
  modifyGet fun c => (c.ahead, c.skipBlock)

/-- Goes back to the first byte of the request, which the first block still holds. The number of blocks
has no bound here; a counter of 32 bits agrees with it for requests read in fewer than 2^32 blocks. -/
def rewind : Action Unit := fun c =>
  if c.loads > 1 then .error .cannotRewind c
  else .ok () { c with behind := [], ahead := c.behind.reverse ++ c.ahead }

/-! ## Sending -/

/-- The fault of an output that did not accept all bytes; `refused` is the text when it took none. -/
def sendFault (refused : String) : Sink.Refusal → Fault
  | .tookNone => .io refused
  | .fault text => .io text

/-- Sends all pending bytes. When that fails all of them stay pending. -/
def send : Action Unit := fun c =>
  match c.sink.offer c.pending.toList with
  | (.ok (), sink) =>
    .ok () { c with sink, pending := #[], events := .sentPending c.pending.size :: c.events }
  | (.error refusal, sink) => .error (sendFault "write zero" refusal) { c with sink }

def flush : Action Unit := do
  send
  fun c =>
    match c.sink.flush with
    | (.ok (), sink) => .ok () { c with sink }
    | (.error text, sink) => .error (.io text) { c with sink }

/-- Puts one byte into the buffer, and sends the buffer when it is full. A byte that is put into a full
buffer, where sending failed before, falls on the guard, and there is no place behind that. -/
def putByte (b : UInt8) : Action Unit := fun c =>
  if c.size < c.pending.size then .error .pastGuard c
  else
    let guardByte := if c.pending.size = c.size then b else c.guardByte
    let c := { c with pending := c.pending.push b, guardByte }
    if c.pending.size = c.size then send c else .ok () c

def putBytes : List UInt8 → Action Unit
  | [] => pure ()
  | b :: bs => do
    putByte b
    putBytes bs

/-! ## Whole streams -/

/-- What copying to a sink leaves behind: the bytes handed over or the fault, and both streams. -/
structure Copied where
  outcome : Except Fault (Array UInt8)
  sink : Sink
  channel : Channel

def incomplete : String := "failed to write whole buffer"

/-- Hands block after block to `sink`; `bound` is more than the number of blocks, and `handed` holds the
bytes before. -/
def copyRestWithin : (bound : Nat) → (handed : Array UInt8) → Sink → Channel → Copied
  | 0, handed, sink, c => ⟨.ok handed, sink, c⟩
  | bound + 1, handed, sink, c =>
    match getBlock c with
    | .error fault c => ⟨.error fault, sink, c⟩
    | .ok block c =>
      if block.isEmpty then ⟨.ok handed, sink, c⟩
      else
        match sink.offer block with
        | (.error refusal, sink) => ⟨.error (sendFault incomplete refusal), sink, c⟩
        | (.ok (), sink) => copyRestWithin bound (handed ++ block) sink c

def copyRest (sink : Sink) (c : Channel) : Copied :=
  copyRestWithin (c.left + 1) #[] sink c

/-- Hands bytes to the output past the buffer. -/
def sendThrough (bytes : List UInt8) : Action Unit := fun c =>
  match c.sink.offer bytes with
  | (.error refusal, sink) => .error (sendFault incomplete refusal) { c with sink }
  | (.ok (), sink) => .ok () { c with sink }

/-- Sends bytes at hand, all at once, behind all pending bytes. Gives their number. -/
def copyFrom (bytes : List UInt8) : Action Nat := do
  send
  sendThrough bytes
  pure bytes.length

/-- The size of the blocks in which a file is sent. -/
def fileBlock : Nat := 8192

/-- Sends the content of a file past the buffer, block by block; `bound` is at least the number of
blocks. -/
def sendBlocksWithin : (bound : Nat) → List UInt8 → Action Unit
  | 0, _ => pure ()
  | bound + 1, bytes => do
    sendThrough (bytes.take fileBlock)
    sendBlocksWithin bound (bytes.drop fileBlock)

def copyFile (content : List UInt8) : Action Unit := do
  send
  sendBlocksWithin (content.length / fileBlock + 1) content

/-- Fails when a buffer was overrun: a block was longer than the buffer, or the byte behind the write
buffer has changed. -/
def checkGuards : Action Unit := fun c =>
  if c.size < c.behind.length + c.ahead.length then .error (.bufferOverrun .read) c
  else if c.guardByte ≠ intactGuard then .error (.bufferOverrun .write) c
  else .ok () c

/-- Reads and drops the rest of the request; `bound` is at least the number of blocks. -/
def drainWithin : (bound : Nat) → Action Unit
  | 0 => pure ()
  | bound + 1 => do
    if (← get).exhausted then pure ()
    else
      let _ ← refill
      modify skipBlock
      drainWithin bound

/-- Reports that the channel is being closed. -/
def reportClosing (c : Channel) : Channel :=
  { c with events := .closing c.leftover :: c.events }

/-- Drops the rest of the request and sends what is pending. -/
def finish : Action Unit := do
  checkGuards
  modify reportClosing
  modify skipBlock
  drainWithin ((← get).source.rest.length + 1)
  flush

end Channel
end Ipp
