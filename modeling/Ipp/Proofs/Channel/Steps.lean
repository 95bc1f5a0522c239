import Ipp.Proofs.Channel.Breaking
import Ipp.Proofs.Channel.Primitives

/-!
# What every call on a channel keeps

All that calls do to a channel is to read a block in place of the one before, to move within the block, and
to change the write side or report something. A relation that these three keep is kept by every call
(`Kept`).
-/

namespace Ipp.Channel

open Calls

/-- What is kept by reading a block, by moving within the block, and by the write side and reports. -/
structure Kept (R : Channel → Channel → Prop) : Prop where
  refl : ∀ c, R c c
  trans : ∀ {c d e}, R c d → R d e → R c e
  refill : Keeps R refill
  -- Bytes of the block become delivered ones, or the other way round.
  block : ∀ (c : Channel) {behind ahead : List UInt8},
    behind.reverse ++ ahead = c.behind.reverse ++ c.ahead → R c { c with behind, ahead }
  output : ∀ (c : Channel) (sink : Sink) (pending : Array UInt8) (guardByte : UInt8)
    (events : List Event), R c { c with sink, pending, guardByte, events }

variable {R : Channel → Channel → Prop}

/-! ## Reading -/

theorem Kept.takeByte (h : Kept R) {c d : Channel} {b : UInt8} (ht : c.takeByte = some (b, d)) :
    R c d := by
  unfold Channel.takeByte at ht
  split at ht
  · next b' ahead ha =>
    cases ht
    refine h.block c ?_
    rw [ha, List.reverse_cons, List.append_assoc, List.singleton_append]
  · cases ht

theorem Kept.getByte (h : Kept R) : Keeps R getByte := by
  intro c
  unfold Channel.getByte
  cases ht : c.takeByte with
  | some taken => exact h.takeByte ht
  | none =>
    cases hr : Channel.refill c with
    | error fault d => exact h.refill.error hr
    | ok n d =>
      have hd : R c d := h.refill.ok hr
      dsimp only
      cases ht' : d.takeByte with
      | some taken => exact h.trans hd (h.takeByte ht')
      | none => exact hd

theorem Kept.getBytes (h : Kept R) (n : Nat) : Keeps R (getBytes n) :=
  keeps_getBytesOnto_of h.refl h.trans h.getByte n []

theorem Kept.getUInt16 (h : Kept R) : Keeps R getUInt16 :=
  (h.getBytes 2).bind h.trans fun _ => keeps_pure h.refl _

theorem Kept.getUInt32 (h : Kept R) : Keeps R getUInt32 :=
  (h.getBytes 4).bind h.trans fun _ => keeps_pure h.refl _

theorem Kept.get (h : Kept R) (s : Shape) : Keeps R s.get := by
  rw [s.get_eq]
  exact (h.getBytes s.width).bind h.trans fun _ => keeps_pure h.refl _

theorem Kept.skipBlock (h : Kept R) (c : Channel) : R c c.skipBlock := by
  refine h.block c ?_
  rw [List.append_nil, List.reverse_append, List.reverse_reverse]

theorem Kept.getBlock (h : Kept R) : Keeps R getBlock := by
  intro c
  rw [getBlock_eq]
  by_cases ha : c.ahead = []
  · rw [if_pos ha]
    cases hr : Channel.refill c with
    | ok n d => exact h.trans (h.refill.ok hr) (h.skipBlock d)
    | error fault d => exact h.refill.error hr
  · rw [if_neg ha]
    exact h.skipBlock c

theorem Kept.copyRestWithin (h : Kept R) (bound : Nat) (handed : Array UInt8) (sink : Sink)
    (c : Channel) : R c (copyRestWithin bound handed sink c).channel := by
  induction bound generalizing handed sink c with
  | zero => exact h.refl c
  | succ bound ih =>
    rw [Channel.copyRestWithin]
    cases hb : Channel.getBlock c with
    | error fault d => exact h.getBlock.error hb
    | ok block d =>
      have hd : R c d := h.getBlock.ok hb
      dsimp only
      split
      · exact hd
      · split
        · exact hd
        · exact h.trans hd (ih _ _ d)

theorem Kept.copyRest (h : Kept R) (sink : Sink) (c : Channel) : R c (copyRest sink c).channel :=
  h.copyRestWithin _ _ sink c

theorem Kept.rewind (h : Kept R) : Keeps R rewind := by
  intro c
  rw [Channel.rewind]
  split
  · exact h.refl c
  · exact h.block c rfl

/-! ## Sending -/

theorem Kept.send (h : Kept R) : Keeps R send := by
  intro c
  unfold Channel.send
  rcases Sink.offer _ _ with ⟨_ | ⟨⟩, sink⟩
  · exact h.output c sink c.pending c.guardByte c.events
  · exact h.output c sink #[] c.guardByte _

theorem Kept.flush (h : Kept R) : Keeps R flush := by
  refine h.send.bind h.trans fun _ c => ?_
  rcases Sink.flush _ with ⟨_ | ⟨⟩, sink⟩
  · exact h.output c sink c.pending c.guardByte c.events
  · exact h.output c sink c.pending c.guardByte c.events

theorem Kept.putByte (h : Kept R) (b : UInt8) : Keeps R (putByte b) := by
  intro c
  have hpushed : R c (pushed c b) := h.output c c.sink (c.pending.push b) _ c.events
  rw [putByte_eq]
  split
  · exact h.refl c
  · split
    · exact h.trans hpushed (h.send _)
    · exact hpushed

theorem Kept.putBytes (h : Kept R) (bytes : List UInt8) : Keeps R (putBytes bytes) := by
  induction bytes with
  | nil => exact keeps_pure h.refl _
  | cons b bytes ih => exact (h.putByte b).bind h.trans fun _ => ih

theorem Kept.sendThrough (h : Kept R) (bytes : List UInt8) : Keeps R (sendThrough bytes) := by
  intro c
  unfold Channel.sendThrough
  rcases Sink.offer _ _ with ⟨_ | ⟨⟩, sink⟩
  · exact h.output c sink c.pending c.guardByte c.events
  · exact h.output c sink c.pending c.guardByte c.events

theorem Kept.copyFile (h : Kept R) (content : List UInt8) : Keeps R (copyFile content) := by
  have hblocks : ∀ (bound : Nat) (bytes : List UInt8), Keeps R (sendBlocksWithin bound bytes) := by
    intro bound
    induction bound with
    | zero => exact fun _ => keeps_pure h.refl _
    | succ bound ih => exact fun bytes => (h.sendThrough _).bind h.trans fun _ => ih _
  exact h.send.bind h.trans fun _ => hblocks _ content

/-! ## The end -/

theorem Kept.finish (h : Kept R) : Keeps R finish := by
  have hreport : Keeps R (modify reportClosing : Action PUnit) :=
    keeps_modify fun c => h.output c c.sink c.pending c.guardByte _
  have hskip : Keeps R (modify Channel.skipBlock : Action PUnit) := keeps_modify h.skipBlock
  exact (keeps_checkGuards_of h.refl).bind h.trans fun _ => hreport.bind h.trans fun _ =>
    hskip.bind h.trans fun _ => keeps_get_bind fun _ =>
      (keeps_drainWithin_of h.refl h.trans h.refill h.skipBlock _).bind h.trans fun _ => h.flush

end Ipp.Channel
