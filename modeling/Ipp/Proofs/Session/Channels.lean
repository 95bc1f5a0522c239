import Ipp.Proofs.Channel.Steps
import Ipp.Proofs.Exchange.Replying
import Ipp.Proofs.Session.Course

/-!
# What calls do to the channel

An exchange reaches its channel only by the calls of the channel. What each of these keeps is therefore kept
by whatever a caller does with the exchange (`Kept.play`), and by a whole exchange (`Kept.serve`).
-/

namespace Ipp.Channel

open Calls

variable {R : Channel → Channel → Prop}

/-! ## Reading the attribute section -/

/-- Between the channels of the two readers `R` holds. -/
abbrev OfReader (R : Channel → Channel → Prop) (r s : Reader) : Prop :=
  R r.channel s.channel

theorem keeps_onReader {α : Type} {call : Action α} (h : Keeps R call) :
    Keeps (OfReader R) (Reader.onChannel call) := by
  intro r
  unfold Reader.onChannel
  cases hc : call r.channel with
  | ok a c => exact h.ok hc
  | error fault c => exact h.error hc

section

variable (h : Kept R)
include h

-- A change of the reader that leaves its channel alone.
theorem Kept.changeReader {u : Reader → Reader} (hu : ∀ r, (u r).channel = r.channel) :
    Keeps (OfReader R) (modify u : Reader.Action PUnit) :=
  keeps_modify fun r => by
    rw [OfReader, hu]
    exact h.refl r.channel

theorem Kept.getCounted : Keeps (OfReader R) Reader.getCounted :=
  (keeps_onReader h.getUInt16).bind h.trans fun _ => keeps_onReader (h.getBytes _)

theorem Kept.readNamed (tag : ValueTag) (length : UInt16) :
    Keeps (OfReader R) (Reader.readNamed tag length) := by
  have hr : ∀ r, OfReader R r r := fun r => h.refl r.channel
  refine (keeps_onReader (h.getBytes _)).bind h.trans fun name => ?_
  refine h.getCounted.bind h.trans fun bytes => keeps_get_bind fun r => ?_
  cases r.group with
  | none => exact keeps_throw hr _
  | some group =>
    dsimp only
    cases Value.decode tag (Text.ofUtf8Lossy name) bytes with
    | error fault => exact keeps_throw hr _
    | ok value => exact h.changeReader fun _ => rfl

theorem Kept.readAdditional (tag : ValueTag) : Keeps (OfReader R) (Reader.readAdditional tag) := by
  have hr : ∀ r, OfReader R r r := fun r => h.refl r.channel
  refine keeps_get_bind fun r => ?_
  cases r.current with
  | none => exact keeps_throw hr _
  | some a =>
    refine h.getCounted.bind h.trans fun bytes => ?_
    refine keeps_ite ?_ ?_
    · cases Value.decode tag a.name bytes with
      | error fault => exact keeps_throw hr _
      | ok value => exact h.changeReader fun _ => rfl
    · have hextend : Keeps (OfReader R)
          (modify fun r => r.extend a (.tagged tag bytes) : Reader.Action PUnit) :=
        h.changeReader fun _ => rfl
      exact keeps_ite ((h.changeReader fun _ => rfl).bind h.trans fun _ => hextend) hextend

theorem Kept.readPart : Keeps (OfReader R) Reader.readPart := by
  have hr : ∀ r, OfReader R r r := fun r => h.refl r.channel
  refine (keeps_onReader h.getByte).bind h.trans fun tag => ?_
  refine keeps_ite (keeps_pure hr _) (keeps_ite ?_ ?_)
  · cases Group.ofDelimiter? tag with
    | none =>
      have hthrow : Keeps (OfReader R) (throw (.invalidTag tag) : Reader.Action PUnit) :=
        keeps_throw hr _
      exact hthrow.bind h.trans fun _ => keeps_pure hr _
    | some group => exact (h.changeReader fun _ => rfl).bind h.trans fun _ => keeps_pure hr _
  · refine (keeps_onReader h.getUInt16).bind h.trans fun length => ?_
    exact keeps_ite ((h.readAdditional _).bind h.trans fun _ => keeps_pure hr _)
      ((h.readNamed _ length).bind h.trans fun _ => keeps_pure hr _)

theorem Kept.readWithin (bound : Nat) : Keeps (OfReader R) (Reader.readWithin bound) := by
  have hr : ∀ r, OfReader R r r := fun r => h.refl r.channel
  induction bound with
  | zero => exact keeps_throw hr _
  | succ bound ih => exact h.readPart.bind h.trans fun more => keeps_ite ih (keeps_pure hr _)

theorem Kept.read : Keeps (OfReader R) Reader.read :=
  keeps_get_bind fun _ => h.readWithin _

end

/-! ## Exchanges -/

/-- Between the channels of the two exchanges `R` holds. -/
abbrev OfExchange (R : Channel → Channel → Prop) (e e' : Exchange) : Prop :=
  R e.channel e'.channel

theorem keeps_onExchange {α : Type} {call : Action α} (h : Keeps R call) :
    Keeps (OfExchange R) (Exchange.onChannel call) := by
  intro e
  rw [Exchange.final_onChannel]
  exact h e.channel

section

variable (h : Kept R)
include h

theorem Kept.headerFields : Keeps (OfExchange R) Exchange.headerFields := by
  have hset {f : Exchange → Header} : Keeps (OfExchange R)
      (modify fun e => { e with header := f e } : Exchange.Action Unit) :=
    keeps_modify fun e => h.refl e.channel
  exact (keeps_onExchange h.getByte).bind h.trans fun _ => hset.bind h.trans fun _ =>
    (keeps_onExchange h.getByte).bind h.trans fun _ => hset.bind h.trans fun _ =>
    (keeps_onExchange h.getUInt16).bind h.trans fun _ => hset.bind h.trans fun _ =>
    (keeps_onExchange h.getUInt32).bind h.trans fun _ => hset

theorem Kept.parseHeader : Keeps (OfExchange R) Exchange.parseHeader := by
  intro e
  by_cases henough : e.DeclaresEnough
  · rw [Exchange.parseHeader_of_enough henough]
    exact h.headerFields e
  · obtain ⟨n, -, hfault⟩ := Exchange.parseHeader_of_not_enough henough
    rw [hfault]
    exact h.refl e.channel

theorem Kept.parseBody : Keeps (OfExchange R) Exchange.parseBody := by
  intro e
  have hread := h.read { channel := e.channel }
  cases hr : Reader.read { channel := e.channel } with
  | error fault r =>
    rw [hr] at hread
    rw [Exchange.parseBody, hr]
    exact hread
  | ok done r =>
    rw [hr] at hread
    obtain ⟨log, hp⟩ := Exchange.parseBody_of_read hr
    rw [hp]
    exact hread

theorem Kept.parse : Keeps (OfExchange R) Exchange.parse :=
  h.parseHeader.bind h.trans fun _ => h.parseBody

theorem Kept.queueing (change : Queue → Except Fault Queue) :
    Keeps (OfExchange R) (Exchange.queueing change) := by
  intro e
  unfold Exchange.queueing
  cases change e.queue <;> exact h.refl e.channel

theorem Kept.echo : Keeps (OfExchange R) Exchange.echo := by
  have hr : ∀ e, OfExchange R e e := fun e => h.refl e.channel
  have hclaim : ∀ g t n e, OfExchange R e (Exchange.claim g t n e).2 := by
    intro g t n e
    have hsifts := (Exchange.claim_takes g t n e).2.sifts
    rw [hsifts.rest]
    exact hr e
  refine keeps_get_bind fun e => ?_
  have hbehind : Keeps (OfExchange R) (Exchange.echoBehind none e.request) :=
    Exchange.keeps_echoBehind hr h.trans (fun _ => h.queueing _) hclaim
      (fun a _ => h.queueing (Queue.addCopy a.group a)) none
  exact hbehind.bind h.trans fun _ => keeps_pure hr _

theorem Kept.sendReply (header : Bool) : Keeps (OfExchange R) (Exchange.sendReply header) := by
  have hr : ∀ e, OfExchange R e e := fun e => h.refl e.channel
  have hfile : ∀ content, Keeps R (Exchange.sendFile header content) := fun content =>
    (h.putBytes _).bind h.trans fun _ => (h.copyFile content).bind h.trans fun _ => h.flush
  have hencoding : ∀ encoding, Keeps R (Exchange.putEncoding encoding) := by
    intro encoding
    refine (h.putBytes encoding.bytes).bind h.trans fun _ => ?_
    cases encoding.fault with
    | some fault => exact keeps_throw h.refl _
    | none => exact h.flush
  intro e
  by_cases hreplied : e.replied = true
  · rw [Exchange.final_sendReply_of_replied hreplied]
    exact hr e
  have hfresh : e.replied = false := Bool.eq_false_iff.mpr hreplied
  cases hsub : e.substitute with
  | some content =>
    rw [Exchange.sendReply_of_file hfresh hsub]
    exact keeps_onExchange (hfile content) { e with replied := true, substitute := none }
  | none =>
    have hswept : OfExchange R e { e.sweep with replied := true, substitute := none } := by
      show R e.channel e.sweep.channel
      rw [Exchange.sweep_channel]
      exact h.refl e.channel
    rw [Exchange.sendReply_of_queue hfresh hsub]
    split
    · exact hswept
    · exact h.trans hswept (keeps_onExchange (hencoding _) _)

theorem Kept.forwardRequest (sink : Sink) (e : Exchange) :
    OfExchange R e (e.forwardRequest sink).exchange := by
  unfold Exchange.forwardRequest Exchange.onChannel
  cases hr : Channel.rewind e.channel with
  | ok a c => exact h.trans (h.rewind.ok hr) (h.copyRest sink c)
  | error fault c => exact h.rewind.error hr

/-! ## Sessions -/

theorem Kept.perform (call : Call) (s : Session) :
    OfExchange R s.exchange (final (Session.perform call s)).exchange := by
  have hr : ∀ e, OfExchange R e e := fun e => h.refl e.channel
  have hcall : ∀ {α : Type} {x : Exchange.Action α} (answer : α → Answer), Keeps (OfExchange R) x →
      OfExchange R s.exchange
        (final ((do return answer (← Session.onExchange x) : Session.Action Answer) s)).exchange := by
    intro α x answer hx
    rw [Session.exchange_final_onExchange]
    exact hx s.exchange
  by_cases hclaims : call.claims = true
  · rw [(Session.sifts_perform hclaims s).rest]
    exact hr s.exchange
  cases call with
  | parse => exact hcall (fun _ => .done) h.parse
  | parseHeader => exact hcall (fun _ => .done) h.parseHeader
  | parseBody => exact hcall (fun _ => .done) h.parseBody
  | demote handle =>
    rw [Session.perform, get_bind]
    cases s.attribute? handle <;> exact hr s.exchange
  | addCopy g handle =>
    rw [Session.perform, get_bind]
    cases s.attribute? handle with
    | none => exact hr s.exchange
    | some a => exact hcall (fun _ => .done) (h.queueing _)
  | echo => exact hcall .count h.echo
  | addInteger | addIntegers | addString | addStrings | addBoolean | addOutOfBand | addTemplate
  | addTemplates | addEnd | addStandard => exact hcall (fun _ => .done) (h.queueing _)
  | setStatus | rejectOperation | setRemoteUser | setRemoteAddr | setPathInfo | replyFromFile =>
    exact hr s.exchange
  | sendReply header => exact hcall (fun _ => .done) (h.sendReply header)
  | forwardRequest sink => exact h.forwardRequest sink s.exchange
  | readDocument sink => exact h.copyRest sink s.exchange.channel
  | header | request | queue | trace | info | find | claim | claimSingle | claimString | claimUri
  | claimPositive | claimEnum | claimBoolean | claimKeyword | claimIdentity | classify | isRequested
  | release => exact absurd rfl hclaims

/-- What every call on a channel keeps is kept by any number of calls on an exchange. -/
theorem Kept.play (calls : List Call) (s : Session) :
    OfExchange R s.exchange (s.play calls).2.exchange :=
  Session.play_induction (P := OfExchange R s.exchange)
    (fun call _ t ht => h.trans ht (h.perform call t)) (h.refl s.exchange.channel)

/-! ## Whole exchanges -/

theorem Kept.prepare : Keeps (OfExchange R) Exchange.prepare := by
  have hr : ∀ e, OfExchange R e e := fun e => h.refl e.channel
  have hcheck : Keeps (OfExchange R) (modifyGet Exchange.precheck : Exchange.Action (Option Status)) := by
    intro e
    show R e.channel (Exchange.precheck e).2.channel
    rw [(Exchange.precheck_sifts e).rest]
    exact h.refl e.channel
  have hlast : Keeps (OfExchange R) (do
      Exchange.queueing Queue.addStandard
      return decide ((← MonadState.get).status = Status.ok)) :=
    (h.queueing _).bind h.trans fun _ => keeps_get_bind fun _ => keeps_pure hr _
  refine h.parse.bind h.trans fun _ => hcheck.bind h.trans fun failed => ?_
  cases failed with
  | none => exact hlast
  | some status =>
    have hset : Keeps (OfExchange R) (modify fun e => { e with status } : Exchange.Action PUnit) :=
      keeps_modify fun e => h.refl e.channel
    exact hset.bind h.trans fun _ => hlast

theorem Kept.answer (emitHeader : Bool) : Keeps (OfExchange R) (Exchange.answer emitHeader) := by
  intro e
  have hworded : e.worded.channel = e.channel := by
    unfold Exchange.worded
    cases Exchange.statusMessage? e.status <;> rfl
  have hsent := h.sendReply emitHeader e.worded
  rw [OfExchange, hworded] at hsent
  rw [Exchange.answer_eq]
  cases hs : Exchange.sendReply emitHeader e.worded with
  | ok a e' =>
    rw [hs] at hsent
    exact hsent
  | error fault e' =>
    rw [hs] at hsent
    exact hsent

theorem Kept.conclude (e : Exchange) {ω : Type} (outcome : Except Fault Status) (report : Option ω) :
    R e.channel (e.conclude outcome report).exchange.channel := by
  rw [Exchange.channel_conclude, Exchange.close]
  by_cases hclosed : e.closed = true
  · rw [if_pos hclosed]
    exact h.refl e.channel
  · rw [if_neg hclosed]
    exact keeps_onExchange h.finish { e with closed := true }

theorem Kept.answerAndConclude (e : Exchange) {ω : Type} (emitHeader : Bool) (report : Option ω) :
    R e.channel (e.answerAndConclude emitHeader report).exchange.channel := by
  unfold Exchange.answerAndConclude
  cases ha : Exchange.answer emitHeader e with
  | ok status e' => exact h.trans ((h.answer emitHeader).ok ha) (h.conclude e' _ _)
  | error fault e' => exact h.trans ((h.answer emitHeader).error ha) (h.conclude e' _ _)

/-- What every call on a channel keeps is kept from opening the channel to the end of the exchange. -/
theorem Kept.serve (config : Config) (peer : Peer) (source : Source) (sink : Sink) {ω : Type}
    {handler : Handler ω} (hhandler : handler.MakesCalls) :
    R (opened source sink peer.declared config.bufferSize.toNat)
      (serve config peer source sink handler).exchange.channel := by
  have hprepare := h.prepare (.received config peer source sink)
  unfold Ipp.serve
  cases hp : Exchange.prepare (.received config peer source sink) with
  | error fault e =>
    rw [hp] at hprepare
    exact h.trans hprepare (h.conclude e _ _)
  | ok goesOn e =>
    rw [hp] at hprepare
    cases goesOn with
    | false => exact h.trans hprepare (h.answerAndConclude e _ _)
    | true =>
      obtain ⟨calls, hcalls⟩ := hhandler e
      have hhandled := h.play calls { exchange := e }
      rw [OfExchange, ← hcalls] at hhandled
      dsimp only
      cases (handler e).outcome with
      | error fault => exact h.trans (h.trans hprepare hhandled) (h.conclude _ _ _)
      | ok _ => exact h.trans (h.trans hprepare hhandled) (h.answerAndConclude _ _ _)

end

/-! ## Counting the input -/

/-- The input is counted on both channels, or on neither. -/
def CountsAlike (c d : Channel) : Prop :=
  d.remaining.isSome = c.remaining.isSome

theorem kept_countsAlike : Kept CountsAlike where
  refl _ := rfl
  trans h h' := h'.trans h
  refill := by
    intro c
    unfold Channel.refill
    split
    · exact Eq.refl _
    split
    · exact Eq.refl _
    split
    · exact Eq.refl _
    · exact Option.isSome_map
  block _ _ _ _ := rfl
  output _ _ _ _ _ := rfl

end Ipp.Channel
