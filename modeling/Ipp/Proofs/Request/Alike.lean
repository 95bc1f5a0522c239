import Ipp.Proofs.Channel.Alike
import Ipp.Request.Reader

/-!
# Reading through different buffers

Readers over channels that are alike read the same parts, and stop at the same fault.
-/

namespace Ipp.Reader

open Calls

/-- The same reader on another channel. -/
def through (r : Reader) (c : Channel) : Reader :=
  { r with channel := c }

/-- The same reader on channels that are alike. -/
inductive Alike : Reader → Reader → Prop
  | through (r : Reader) {c d : Channel} (h : c.Alike d) : Alike (r.through c) (r.through d)

theorem agree_onChannel {α : Type} {call : Channel.Action α} (h : Agree Channel.Alike call call) :
    Agree Alike (onChannel call) (onChannel call) := by
  rintro _ _ ⟨r, hcd⟩
  have hend := h _ _ hcd
  unfold onChannel
  dsimp only [through]
  generalize call _ = p at hend ⊢
  generalize call _ = q at hend ⊢
  cases hend with
  | ok h => exact .ok (.through r h)
  | error h => exact .error (.through r h)

-- A step that does not touch the channel.
theorem agree_step {u : Reader → Reader} (h : ∀ r c, u (r.through c) = (u r).through c) :
    Agree Alike (modify u : Action PUnit) (modify u) := by
  apply agree_modify
  rintro _ _ ⟨r, hcd⟩
  rw [h, h]
  exact .through (u r) hcd

theorem agree_getCounted : Agree Alike getCounted getCounted :=
  (agree_onChannel Channel.agree_getUInt16).bind fun length =>
    agree_onChannel (Channel.agree_getBytes length.toNat)

theorem agree_readNamed (tag : ValueTag) (length : UInt16) :
    Agree Alike (readNamed tag length) (readNamed tag length) := by
  apply (agree_onChannel (Channel.agree_getBytes length.toNat)).bind
  intro bytes
  apply agree_getCounted.bind
  intro value
  apply agree_get_bind
  rintro _ _ ⟨r, -⟩
  dsimp only [through]
  cases r.group with
  | none => exact agree_throw _
  | some group =>
    dsimp only
    cases Value.decode tag (Text.ofUtf8Lossy bytes) value with
    | error fault => exact agree_throw fault
    | ok v => exact agree_step fun _ _ => rfl

theorem agree_readAdditional (tag : ValueTag) :
    Agree Alike (readAdditional tag) (readAdditional tag) := by
  apply agree_get_bind
  rintro _ _ ⟨r, -⟩
  dsimp only [through]
  cases r.current with
  | none => exact agree_throw _
  | some a =>
    apply agree_getCounted.bind
    intro bytes
    have hextend : ∀ v, Agree Alike (modify fun r => r.extend a v) (modify fun r => r.extend a v) :=
      fun v => agree_step fun _ _ => rfl
    apply agree_ite
    · cases Value.decode tag a.name bytes with
      | error fault => exact agree_throw fault
      | ok v => exact hextend v
    · apply agree_ite
      · exact (agree_step fun _ _ => rfl).bind fun _ => hextend _
      · exact hextend _

theorem agree_readPart : Agree Alike readPart readPart := by
  apply (agree_onChannel Channel.agree_getByte).bind
  intro tag
  apply agree_ite (agree_pure _)
  apply agree_ite
  · cases Group.ofDelimiter? tag with
    | none => exact agree_throw _
    | some group => exact (agree_step fun _ _ => rfl).bind fun _ => agree_pure _
  · apply (agree_onChannel Channel.agree_getUInt16).bind
    intro length
    apply agree_ite
    · exact (agree_readAdditional ⟨tag⟩).bind fun _ => agree_pure _
    · exact (agree_readNamed ⟨tag⟩ length).bind fun _ => agree_pure _

theorem agree_readWithin (bound : Nat) : Agree Alike (readWithin bound) (readWithin bound) := by
  induction bound with
  | zero => exact agree_throw _
  | succ bound ih =>
    apply agree_readPart.bind
    intro goesOn
    exact agree_ite ih (agree_pure _)

theorem agree_read : Agree Alike read read := by
  apply agree_get_bind
  rintro _ _ ⟨r, hcd⟩
  dsimp only [through]
  -- The bound counts what the input still gives, which is the same for both.
  rw [hcd.left_eq]
  exact agree_readWithin _

end Ipp.Reader
