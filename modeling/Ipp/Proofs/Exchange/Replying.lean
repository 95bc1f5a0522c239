import Ipp.Proofs.Channel.Breaking
import Ipp.Proofs.Exchange.Sifting
import Ipp.Proofs.Reply.Encodable

/-!
# What a reply puts on the channel

The first reply puts its bytes where there is room, or breaks off; every later one is refused. Nothing else
puts anything.
-/

namespace Ipp

open Calls

-- Nothing that stops an encoding has to do with buffers.
theorem Attribute.isOverrun_of_fault_encode {a : Attribute} {root : String} {fault : Fault}
    (h : (a.encode root).fault = some fault) : fault.isOverrun = false := by
  rcases fault_encode h with rfl | rfl | rfl <;> rfl

theorem isOverrun_of_fault_encodeReply {root : String} {h : Header} {status : Status} {q : Queue}
    {fault : Fault} (hfault : (encodeReply root h status q).fault = some fault) :
    fault.isOverrun = false := by
  obtain ⟨g, a, -, hstopped⟩ := exists_of_fault_encodeReply hfault
  exact a.isOverrun_of_fault_encode hstopped

namespace Exchange

/-- The bytes that a reply consists of which is sent now: those of the file in its place, or those of the
swept queue. There are none when a reply was sent before, or when nothing can be sent. -/
def replyBytes (header : Bool) (e : Exchange) : List UInt8 :=
  if e.replied then []
  else
    match e.substitute with
    | some content => filePreamble header content.length ++ content
    | none =>
      if e.sweep.queue.operation.isEmpty then []
      else replyPreamble header ++ (encodeReply e.root e.header e.status e.sweep.queue).bytes

variable {e : Exchange}

theorem replyBytes_of_replied (h : e.replied = true) (header : Bool) : e.replyBytes header = [] :=
  if_pos h

theorem sendReply_of_replied (h : e.replied = true) (header : Bool) :
    sendReply header e = .error .replyAlreadySent e :=
  if_pos h

theorem delivers_putEncoding {encoding : Encoding}
    (h : ∀ fault, encoding.fault = some fault → fault.isOverrun = false) :
    Channel.Delivers encoding.bytes (putEncoding encoding) := by
  rw [← List.append_nil encoding.bytes]
  apply (Channel.delivers_putBytes encoding.bytes).bind
  cases hfault : encoding.fault with
  | some fault => exact Channel.delivers_throw (h fault hfault)
  | none => exact Channel.delivers_flush

theorem delivers_sendFile (header : Bool) (content : List UInt8) :
    Channel.Delivers (filePreamble header content.length ++ content) (sendFile header content) := by
  have hcopy := (Channel.delivers_copyFile content).bind Channel.delivers_flush
  rw [List.append_nil] at hcopy
  exact (Channel.delivers_putBytes _).bind hcopy

theorem sendReply_of_file {content : List UInt8} (h : e.replied = false) (hfile : e.substitute = some content)
    (header : Bool) : sendReply header e =
      onChannel (sendFile header content) { e with replied := true, substitute := none } := by
  unfold sendReply
  rw [if_neg (by rw [h]; decide)]
  dsimp only
  rw [hfile]

theorem sendReply_of_queue (h : e.replied = false) (hfile : e.substitute = none) (header : Bool) :
    sendReply header e =
      if e.sweep.queue.operation.isEmpty then
        .error .noOperationAttributes { e.sweep with replied := true, substitute := none }
      else
        onChannel (putEncoding (.ofBytes (replyPreamble header) ++
            encodeReply e.root e.header e.status e.sweep.queue))
          { e.sweep with replied := true, substitute := none } := by
  have hsweep : ({ e with replied := true } : Exchange).sweep =
      { e.sweep with replied := true, substitute := none } := by
    rw [sweep_eq, sweep_eq, ← hfile]
  have hqueue : sendReply header e = sendQueue header { e with replied := true } := by
    unfold sendReply
    rw [if_neg (by rw [h]; decide)]
    dsimp only
    rw [hfile]
  rw [hqueue, sendQueue, hsweep]
  dsimp only
  rw [sweep_root, sweep_header, sweep_status]

/-- A first reply sifts the request or takes the file, and puts its bytes on the channel. -/
theorem sendReply_eq (h : e.replied = false) (header : Bool) :
    ∃ (e' : Exchange) (x : Channel.Action Unit), e.Sifts e' ∧ Channel.Delivers (e.replyBytes header) x ∧
      sendReply header e = onChannel x { e' with replied := true, substitute := none } := by
  unfold replyBytes
  rw [if_neg (by rw [h]; decide)]
  cases hfile : e.substitute with
  | some content =>
    exact ⟨e, sendFile header content, .refl e, delivers_sendFile header content,
      sendReply_of_file h hfile header⟩
  | none =>
    rw [sendReply_of_queue h hfile]
    dsimp only
    split
    · exact ⟨e.sweep, throw .noOperationAttributes, sweep_sifts e, Channel.delivers_throw rfl, rfl⟩
    · have hfault : ∀ fault, (Encoding.ofBytes (replyPreamble header) ++
          encodeReply e.root e.header e.status e.sweep.queue).fault = some fault →
          fault.isOverrun = false :=
        fun fault hstopped => isOverrun_of_fault_encodeReply (h := e.header) hstopped
      exact ⟨e.sweep, _, sweep_sifts e, delivers_putEncoding hfault, rfl⟩

end Exchange
end Ipp
