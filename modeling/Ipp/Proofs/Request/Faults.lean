import Ipp.Proofs.Request.Acceptance

/-!
# Why a request cannot be read

Whatever the input is, reading a request fails because of the streams or of the peer, and never because
the caller broke a rule.
-/

namespace Ipp

open Calls

/-- Where the call fails, no rule of this library was broken. -/
abbrev Innocent {σ α : Type} (x : EStateM Fault σ α) : Prop :=
  Ends (fun _ => True) x (fun _ _ => True) fun fault _ => fault.faultClass ≠ .contract

section Innocent

variable {σ α β : Type} {x : EStateM Fault σ α} {f : α → EStateM Fault σ β}

theorem innocent_pure (a : α) : Innocent (pure a : EStateM Fault σ α) :=
  ends_pure fun _ _ => trivial

theorem innocent_modify (g : σ → σ) : Innocent (modify g : EStateM Fault σ PUnit) :=
  fun _ _ => trivial

theorem innocent_throw {fault : Fault} (h : fault.faultClass ≠ .contract) :
    Innocent (throw fault : EStateM Fault σ α) :=
  ends_throw fun _ _ => h

theorem Innocent.bind (hx : Innocent x) (hf : ∀ a, Innocent (f a)) : Innocent (x >>= f) :=
  Ends.bind hx hf

theorem innocent_get_bind {g : σ → EStateM Fault σ β} (h : ∀ s, Innocent (g s)) :
    Innocent (get >>= g) :=
  ends_get_bind fun s _ => h s

end Innocent

/-! ## The channel -/

namespace Channel

theorem innocent_refill : Innocent refill := by
  intro c _
  unfold refill
  by_cases hend : c.exhausted = true
  · rw [if_pos hend]
    trivial
  rw [if_neg hend]
  rcases c.source.read c.want with ⟨outcome | bytes, source⟩
  · exact nofun
  · dsimp only
    cases bytes.isEmpty && c.remaining.isSome with
    | true => exact nofun
    | false => trivial

theorem innocent_getByte : Innocent getByte := by
  intro c _
  have hrefill := innocent_refill c trivial
  unfold getByte
  cases c.takeByte with
  | some taken => trivial
  | none =>
    dsimp only
    cases hr : refill c with
    | error fault d =>
      rw [hr] at hrefill
      exact hrefill
    | ok n d =>
      dsimp only
      cases d.takeByte with
      | some taken => trivial
      | none => exact nofun

theorem innocent_getBytesOnto (n : Nat) (got : List UInt8) : Innocent (getBytesOnto n got) := by
  induction n generalizing got with
  | zero => exact innocent_pure _
  | succ n ih => exact innocent_getByte.bind fun b => ih (b :: got)

theorem innocent_getBytes (n : Nat) : Innocent (getBytes n) :=
  innocent_getBytesOnto n []

theorem innocent_getUInt16 : Innocent getUInt16 :=
  (innocent_getBytes 2).bind fun _ => innocent_pure _

theorem innocent_getUInt32 : Innocent getUInt32 :=
  (innocent_getBytes 4).bind fun _ => innocent_pure _

end Channel

/-! ## The attribute section -/

theorem Value.faultClass_of_decode {tag : ValueTag} {name : String} {bs : List UInt8} {fault : Fault}
    (h : Value.decode tag name bs = .error fault) : fault.faultClass ≠ .contract := by
  unfold Value.decode at h
  repeat' split at h
  all_goals cases h
  all_goals exact nofun

namespace Reader

theorem innocent_onChannel {α : Type} {call : Channel.Action α} (h : Innocent call) :
    Innocent (onChannel call) := by
  intro r _
  have hcall := h r.channel trivial
  unfold onChannel
  cases hc : call r.channel with
  | ok a c => trivial
  | error fault c =>
    rw [hc] at hcall
    exact hcall

theorem innocent_getCounted : Innocent getCounted :=
  (innocent_onChannel Channel.innocent_getUInt16).bind fun _ =>
    innocent_onChannel (Channel.innocent_getBytes _)

theorem innocent_readNamed (tag : ValueTag) (length : UInt16) : Innocent (readNamed tag length) := by
  refine (innocent_onChannel (Channel.innocent_getBytes _)).bind fun name => ?_
  refine innocent_getCounted.bind fun bytes => innocent_get_bind fun r => ?_
  cases r.group with
  | none => exact innocent_throw nofun
  | some group =>
    dsimp only
    cases hd : Value.decode tag (Text.ofUtf8Lossy name) bytes with
    | error fault => exact innocent_throw (Value.faultClass_of_decode hd)
    | ok value => exact innocent_modify _

theorem innocent_readAdditional (tag : ValueTag) : Innocent (readAdditional tag) := by
  refine innocent_get_bind fun r => ?_
  cases r.current with
  | none => exact innocent_throw nofun
  | some a =>
    refine innocent_getCounted.bind fun bytes => ?_
    refine ends_ite ?_ ?_
    · cases hd : Value.decode tag a.name bytes with
      | error fault => exact innocent_throw (Value.faultClass_of_decode hd)
      | ok value => exact innocent_modify _
    · exact ends_ite ((innocent_modify _).bind fun _ => innocent_modify _) (innocent_modify _)

theorem innocent_readPart : Innocent readPart := by
  refine (innocent_onChannel Channel.innocent_getByte).bind fun tag => ?_
  refine ends_ite (innocent_pure _) (ends_ite ?_ ?_)
  · cases Group.ofDelimiter? tag with
    | none =>
      have hthrow : Innocent (throw (.invalidTag tag) : Action PUnit) := innocent_throw nofun
      exact hthrow.bind fun _ => innocent_pure _
    | some group => exact (innocent_modify _).bind fun _ => innocent_pure _
  · refine (innocent_onChannel Channel.innocent_getUInt16).bind fun length => ?_
    exact ends_ite ((innocent_readAdditional _).bind fun _ => innocent_pure _)
      ((innocent_readNamed _ length).bind fun _ => innocent_pure _)

theorem innocent_readWithin (bound : Nat) : Innocent (readWithin bound) := by
  induction bound with
  | zero => exact innocent_throw nofun
  | succ bound ih => exact innocent_readPart.bind fun more => ends_ite ih (innocent_pure _)

theorem innocent_read : Innocent read :=
  innocent_get_bind fun _ => innocent_readWithin _

end Reader

/-! ## Whole requests -/

namespace Exchange

theorem innocent_onChannel {α : Type} {call : Channel.Action α} (h : Innocent call) :
    Innocent (onChannel call) := by
  intro e _
  have hcall := h e.channel trivial
  unfold onChannel
  cases hc : call e.channel with
  | ok a c => trivial
  | error fault c =>
    rw [hc] at hcall
    exact hcall

theorem innocent_headerFields : Innocent headerFields :=
  (innocent_onChannel Channel.innocent_getByte).bind fun _ => (innocent_modify _).bind fun _ =>
  (innocent_onChannel Channel.innocent_getByte).bind fun _ => (innocent_modify _).bind fun _ =>
  (innocent_onChannel Channel.innocent_getUInt16).bind fun _ => (innocent_modify _).bind fun _ =>
  (innocent_onChannel Channel.innocent_getUInt32).bind fun _ => innocent_modify _

theorem innocent_parseHeader : Innocent parseHeader := by
  intro e _
  by_cases henough : e.DeclaresEnough
  · rw [parseHeader_of_enough henough]
    exact innocent_headerFields e trivial
  · obtain ⟨n, -, hfault⟩ := parseHeader_of_not_enough henough
    rw [hfault]
    exact nofun

theorem innocent_parseBody : Innocent parseBody := by
  intro e _
  have hread := Reader.innocent_read { channel := e.channel } trivial
  unfold parseBody
  cases hr : Reader.read { channel := e.channel } with
  | ok a r => trivial
  | error fault r =>
    rw [hr] at hread
    exact hread

/-- No input makes the reading of a request fail by a broken contract. -/
theorem innocent_parse : Innocent parse :=
  innocent_parseHeader.bind fun _ => innocent_parseBody

end Exchange
end Ipp
