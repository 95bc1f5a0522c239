import Ipp.Proofs.Exchange.Replying
import Ipp.Proofs.Session.Course

/-!
# Staying within the buffers

On a channel alone a buffer that could not be sent is full, and the next byte would fall on the guard. No
exchange comes to that, whatever the streams and the caller do: bytes are put by the first reply only, which
starts with room in the buffer and puts nothing more once the output has failed.
-/

namespace Ipp

open Calls

/-! ## Channels -/

namespace Channel

/-- The buffers hold no more than their size, and the guard is intact. -/
structure Within (c : Channel) : Prop where
  intact : c.Intact
  fits : c.pending.size ≤ c.size

variable {c d : Channel}

theorem Within.of_leavesOutput (h : c.Within) (hl : c.LeavesOutput d) : d.Within where
  intact := ⟨hl.block h.intact.block, hl.guardByte.trans h.intact.guardByte⟩
  fits := by
    rw [hl.pending, hl.size]
    exact h.fits

theorem Within.of_reads (h : c.Within) (hr : c.Reads d) : d.Within :=
  h.of_leavesOutput hr.leavesOutput

theorem Within.of_spares (h : c.Within) (hs : c.Spares d) (hfits : d.pending.size ≤ d.size) : d.Within := by
  rcases hs with ⟨sink, pending, events, rfl⟩
  exact ⟨⟨h.intact.block, h.intact.guardByte⟩, hfits⟩

-- Whether or not sending succeeds, no more is pending than before.
theorem pending_flush (c : Channel) : (final (flush c)).pending.size ≤ c.pending.size := by
  cases hsend : send c with
  | error fault d =>
    obtain ⟨-, sink, k, rfl, -⟩ := send_error hsend
    rw [flush_of_error hsend]
    exact Nat.le_refl _
  | ok a d =>
    obtain ⟨sink, rfl, -, -⟩ := send_ok hsend
    rw [flush_of_ok hsend]
    rcases Sink.flush _ with ⟨_ | ⟨⟩, sink'⟩ <;> exact Nat.zero_le _

theorem Within.finish (h : c.Within) : (final (Channel.finish c)).Within := by
  rcases c.finish_cases with ⟨fault, d, heq, hleaves⟩ | ⟨d, heq, hleaves⟩
  · rw [heq]
    exact h.of_leavesOutput hleaves
  · have hd := h.of_leavesOutput hleaves
    have hspares := d.spares_flush
    rw [heq]
    refine hd.of_spares hspares (Nat.le_trans (pending_flush d) ?_)
    rcases hspares with ⟨sink, pending, events, heq'⟩
    rw [heq']
    exact hd.fits

end Channel

/-! ## Faults -/

/-- Whatever the state is, the call does not fail by an overrun. -/
abbrev Contained {σ α : Type} (x : EStateM Fault σ α) : Prop :=
  Ends (fun _ => True) x (fun _ _ => True) fun fault _ => fault.isOverrun = false

theorem Innocent.contained {σ α : Type} {x : EStateM Fault σ α} (h : Innocent x) : Contained x :=
  ends_of_cases (fun _ _ => trivial) fun _ hx => Fault.isOverrun_eq_false (h.error trivial hx)

namespace Channel

theorem innocent_getBlock : Innocent getBlock :=
  innocent_get_bind fun c => by
    have hlast : Innocent (modifyGet fun c : Channel => (c.ahead, c.skipBlock)) := fun _ _ => trivial
    exact ends_ite (innocent_refill.bind fun _ => hlast) hlast

-- What is handed over fails as the input or the sink does.
theorem faultClass_copyRestWithin {bound : Nat} {handed : Array UInt8} {sink : Sink} {c : Channel}
    {fault : Fault} (h : (copyRestWithin bound handed sink c).outcome = .error fault) :
    fault.faultClass ≠ .contract := by
  induction bound generalizing handed sink c with
  | zero => cases h
  | succ bound ih =>
    unfold copyRestWithin at h
    cases hblock : getBlock c with
    | error fault' d =>
      rw [hblock] at h
      cases h
      exact innocent_getBlock.error trivial hblock
    | ok block d =>
      rw [hblock] at h
      dsimp only at h
      split at h
      · cases h
      · split at h
        · next refusal sink' _ =>
          cases h
          cases refusal <;> exact nofun
        · exact ih h

end Channel

namespace Queue

/-- The change fails by no overrun. -/
def Contained (change : Queue → Except Fault Queue) : Prop :=
  ∀ {q : Queue} {fault : Fault}, change q = .error fault → fault.isOverrun = false

variable {g : Group} {tag : ValueTag} {name : String}

theorem contained_add {builder : String} {want : Family} {values : List Value} :
    Contained (add builder want g tag name values) := by
  intro q fault h
  unfold add at h
  split at h
  · cases h
    rfl
  · split at h <;> cases h
    rfl

theorem contained_addOutOfBand : Contained (addOutOfBand g tag name) := by
  intro q fault h
  unfold addOutOfBand at h
  split at h <;> cases h
  rfl

theorem contained_addTemplates (pattern : String) (args : List Value) :
    Contained (addTemplates g tag name pattern args) := by
  intro q fault h
  unfold addTemplates at h
  repeat' split at h
  all_goals cases h
  all_goals rfl

theorem contained_addCopy {a : Attribute} : Contained (addCopy g a) := by
  intro q fault h
  unfold addCopy at h
  split at h <;> cases h
  rfl

theorem contained_insertEnd : Contained (·.insertEnd g) := by
  intro q fault h
  cases g <;> cases h <;> rfl

theorem contained_addStandard : Contained addStandard :=
  fun h => nomatch h

end Queue

namespace Exchange

theorem contained_queueing {change : Queue → Except Fault Queue} (h : Queue.Contained change) :
    Contained (queueing change) := by
  intro e _
  unfold queueing
  cases hq : change e.queue with
  | ok queue => trivial
  | error fault => exact h hq

theorem contained_echoBehind (before : Option Attribute) (attributes : List Attribute) :
    Contained (echoBehind before attributes) := by
  induction attributes generalizing before with
  | nil => exact ends_pure fun _ _ => trivial
  | cons a attributes ih =>
    have hclaim : Contained (modifyGet (claim a.group a.tag a.name) : Action (Option Attribute)) :=
      fun _ _ => trivial
    have hbehind : Contained (do
        queueing (Queue.addCopy a.group a)
        let _ ← modifyGet (claim a.group a.tag a.name)
        echoBehind (some a) attributes) :=
      (contained_queueing Queue.contained_addCopy).bind fun _ => hclaim.bind fun _ => ih (some a)
    exact ends_ite ((contained_queueing Queue.contained_insertEnd).bind fun _ => hbehind) hbehind

theorem contained_echo : Contained echo :=
  ends_get_bind fun e _ => (contained_echoBehind none e.request).bind fun _ => ends_pure fun _ h => h

theorem contained_deliver {α : Type} (summary : Array UInt8 → α) (sink : Sink) (e : Exchange)
    {fault : Fault} (h : (e.deliver summary sink).outcome = .error fault) : fault.isOverrun = false :=
  Fault.isOverrun_eq_false (Channel.faultClass_copyRestWithin (deliver_error h))

theorem contained_forwardRequest (sink : Sink) (e : Exchange) {fault : Fault}
    (h : (e.forwardRequest sink).outcome = .error fault) : fault.isOverrun = false := by
  unfold forwardRequest onChannel Channel.rewind at h
  by_cases hloads : e.channel.loads > 1
  · rw [if_pos hloads] at h
    cases h
    rfl
  · rw [if_neg hloads] at h
    exact contained_deliver Array.size sink _ h

/-! ## Exchanges -/

/-- Nothing ran over the buffers, and until the reply is sent there is room for another byte. -/
structure Guarded (e : Exchange) : Prop where
  channel : e.channel.Within
  unsent : e.replied = false → e.channel.HasRoom

variable {e e' : Exchange}

theorem Guarded.of_works (h : e.Guarded) (hw : e.Works e') : e'.Guarded where
  channel := h.channel.of_reads hw.reads
  unsent hr := (h.unsent (hw.replied.symm.trans hr)).of_reads hw.reads

theorem Guarded.of_parses (h : e.Guarded) (hp : e.Parses e') : e'.Guarded := by
  have hreads := hp.reads
  rw [hp.rest]
  exact ⟨h.channel.of_reads hreads, fun hr => (h.unsent hr).of_reads hreads⟩

-- The reply is put where there is room. When that fails the buffer may be full, but none is put any more.
theorem ends_sendReply (header : Bool) :
    Ends Guarded (sendReply header) (fun _ => Guarded) fun fault e => fault.isOverrun = false ∧ e.Guarded := by
  intro e h
  by_cases hreplied : e.replied = true
  · rw [sendReply_of_replied hreplied]
    exact ⟨rfl, h⟩
  have hfresh : e.replied = false := Bool.eq_false_iff.mpr hreplied
  have hroom := h.unsent hfresh
  obtain ⟨e', x, hsifts, hx, heq⟩ := sendReply_eq hfresh header
  have hchannel : e'.channel = e.channel := by rw [hsifts.rest]
  have hspares := hx.room.spares hroom
  rw [heq, onChannel]
  dsimp only
  rw [hchannel]
  cases hsent : x e.channel with
  | ok a c =>
    rw [hsent] at hspares
    exact ⟨h.channel.of_spares hspares (Nat.le_of_lt (hx.hasRoom hroom hsent)), fun hr => by cases hr⟩
  | error fault c =>
    rw [hsent] at hspares
    have hbroke := hx.error hroom hsent
    exact ⟨hbroke.innocent, h.channel.of_spares hspares hbroke.fits, fun hr => by cases hr⟩

-- No overrun is reported in the end, and none has happened then.
theorem ends_close :
    Ends Guarded close (fun _ e => e.channel.Within)
      fun fault e => fault.isOverrun = false ∧ e.channel.Within := by
  intro e h
  unfold close
  by_cases hclosed : e.closed = true
  · rw [if_pos hclosed]
    exact h.channel
  rw [if_neg hclosed]
  have hwithin := h.channel.finish
  have hfault := Channel.ends_finish e.channel h.channel.intact
  unfold onChannel
  cases hfinish : Channel.finish e.channel with
  | ok a c =>
    rw [hfinish] at hwithin
    exact hwithin
  | error fault c =>
    rw [hfinish] at hwithin hfault
    exact ⟨Fault.isOverrun_eq_false hfault, hwithin⟩

theorem guarded_opened (config : Config) (source : Source) (sink : Sink) (declared : Option Nat) :
    (opened config source sink declared).Guarded where
  channel := ⟨⟨Nat.zero_le _, rfl⟩, Nat.zero_le _⟩
  unsent _ := Channel.hasRoom_opened source sink declared _

end Exchange

/-! ## Calls -/

/-- The fault that an answer carries. -/
def Answer.fault? : Answer → Option Fault
  | .forwarded (.error fault) _ | .document (.error fault) _ => some fault
  | _ => none

namespace Session

/-- The fault that was seen, be it that of the call or one in its answer. -/
def Observation.fault? (seen : Observation) : Option Fault :=
  match seen.answer with
  | .ok answer => answer.fault?
  | .error fault => some fault

/-- No fault that the call gives is that of an overrun. -/
abbrev NeverOverruns (x : Action Answer) : Prop :=
  Ends (fun s => s.exchange.Guarded) x (fun answer _ => ∀ fault ∈ answer.fault?, fault.isOverrun = false)
    fun fault _ => fault.isOverrun = false

-- An answer without a fault has none by an overrun.
theorem isOverrun_of_faultless {answer : Answer} (h : answer.fault? = none) :
    ∀ fault ∈ answer.fault?, fault.isOverrun = false := by
  intro fault hfault
  rw [h] at hfault
  cases hfault

theorem neverOverruns_onExchange {α : Type} {x : Exchange.Action α}
    (hx : Ends Exchange.Guarded x (fun _ _ => True) fun fault _ => fault.isOverrun = false)
    {answer : α → Answer} (hanswer : ∀ a, (answer a).fault? = none) :
    NeverOverruns (do return answer (← onExchange x)) := by
  intro s h
  have hcall := hx s.exchange h
  rw [answer_onExchange]
  cases hr : x s.exchange with
  | ok a e => exact isOverrun_of_faultless (hanswer a)
  | error fault e =>
    rw [hr] at hcall
    exact hcall

theorem neverOverruns_deliver {α : Type} {handOver : Exchange → Exchange.Delivered α}
    {answer : Except Fault α → List UInt8 → Answer}
    (hfault : ∀ outcome received fault, (answer outcome received).fault? = some fault →
      outcome = .error fault)
    (hgood : ∀ e fault, (handOver e).outcome = .error fault → fault.isOverrun = false) :
    NeverOverruns (deliver handOver answer) :=
  fun s _ fault h => hgood s.exchange fault (hfault _ _ fault h)

theorem neverOverruns_build {change : Queue → Except Fault Queue} (h : Queue.Contained change) :
    NeverOverruns (build change) :=
  neverOverruns_onExchange (Exchange.contained_queueing h).weaken fun _ => rfl

theorem neverOverruns_perform (call : Call) : NeverOverruns (perform call) := by
  cases call with
  | parse =>
    exact neverOverruns_onExchange Exchange.innocent_parse.contained.weaken fun _ => rfl
  | parseHeader =>
    exact neverOverruns_onExchange Exchange.innocent_parseHeader.contained.weaken fun _ => rfl
  | parseBody =>
    exact neverOverruns_onExchange Exchange.innocent_parseBody.contained.weaken fun _ => rfl
  | demote handle =>
    intro s _
    rw [perform, get_bind]
    cases s.attribute? handle <;> exact isOverrun_of_faultless rfl
  | addCopy g handle =>
    intro s h
    rw [perform, get_bind]
    cases s.attribute? handle with
    | none => exact isOverrun_of_faultless rfl
    | some a => exact neverOverruns_build Queue.contained_addCopy s h
  | echo => exact neverOverruns_onExchange Exchange.contained_echo.weaken fun _ => rfl
  | addInteger | addIntegers | addString | addStrings | addBoolean =>
    exact neverOverruns_build Queue.contained_add
  | addOutOfBand => exact neverOverruns_build Queue.contained_addOutOfBand
  | addTemplate g tag name pattern arg =>
    exact neverOverruns_build (Queue.contained_addTemplates pattern [arg])
  | addTemplates g tag name pattern args =>
    exact neverOverruns_build (Queue.contained_addTemplates pattern args)
  | addEnd => exact neverOverruns_build Queue.contained_insertEnd
  | addStandard => exact neverOverruns_build Queue.contained_addStandard
  | sendReply header =>
    have hsend : Ends Exchange.Guarded (Exchange.sendReply header) (fun _ _ => True)
        fun fault _ => fault.isOverrun = false :=
      ends_of_cases (fun _ _ => trivial) fun h hx => ((Exchange.ends_sendReply header).error h hx).1
    exact neverOverruns_onExchange hsend fun _ => rfl
  | forwardRequest sink =>
    refine neverOverruns_deliver (fun outcome _ fault h => ?_) (fun e fault => e.contained_forwardRequest sink)
    cases outcome <;> cases h
    rfl
  | readDocument sink =>
    refine neverOverruns_deliver (fun outcome _ fault h => ?_) (fun e fault => e.contained_deliver _ sink)
    cases outcome <;> cases h
    rfl
  | header | request | queue | trace | info | find | claim | claimSingle | claimString | claimUri
  | claimPositive | claimEnum | claimBoolean | claimKeyword | claimIdentity | setStatus
  | rejectOperation | setRemoteUser | setRemoteAddr | setPathInfo | replyFromFile | classify
  | isRequested | release => exact fun _ _ => isOverrun_of_faultless rfl

/-! ## Runs -/

theorem guarded_of_moves {call : Call} {e e' : Exchange} (h : e.Guarded) (hm : Moves call e e') :
    e'.Guarded := by
  cases hm with
  | parses _ hparses => exact h.of_parses hparses
  | works hworks => exact h.of_works hworks
  | replies header hreplied =>
    rw [hreplied]
    cases hsent : e.sendReply header with
    | ok a e'' => exact (Exchange.ends_sendReply header).ok h hsent
    | error fault e'' => exact ((Exchange.ends_sendReply header).error h hsent).2

theorem neverOverruns_step (call : Call) {s : Session} (h : s.exchange.Guarded) :
    ∀ fault ∈ (s.step call).1.fault?, fault.isOverrun = false := by
  have hcall := neverOverruns_perform call s h
  unfold step
  cases hp : perform call s with
  | ok answer s' =>
    rw [hp] at hcall
    exact hcall
  | error fault s' =>
    rw [hp] at hcall
    rintro _ ⟨⟩
    exact hcall

theorem guarded_play (calls : List Call) {s : Session} (h : s.exchange.Guarded) :
    (s.play calls).2.exchange.Guarded ∧
      ∀ seen ∈ (s.play calls).1, ∀ fault ∈ seen.fault?, fault.isOverrun = false := by
  induction calls generalizing s with
  | nil => exact ⟨h, fun seen hseen => nomatch hseen⟩
  | cons call calls ih =>
    have hafter : (s.step call).2.exchange.Guarded := by
      rw [step_eq]
      exact guarded_of_moves h (moves_perform call s)
    obtain ⟨hend, hmore⟩ := ih hafter
    exact ⟨hend, List.forall_mem_cons.mpr ⟨neverOverruns_step call h, hmore⟩⟩

theorem neverOverruns_finish {s : Session} (h : s.exchange.Guarded) :
    s.finish.2.exchange.channel.Within ∧ ∀ fault ∈ s.finish.1.fault?, fault.isOverrun = false := by
  have hclose := Exchange.ends_close s.exchange h
  unfold finish onExchange
  cases hc : s.exchange.close with
  | ok a e =>
    rw [hc] at hclose
    exact ⟨hclose, nofun⟩
  | error fault e =>
    rw [hc] at hclose
    refine ⟨hclose.2, ?_⟩
    rintro _ ⟨⟩
    exact hclose.1

/-- Reported when an exchange that nobody has finished could not be closed. -/
def discardFailed (fault : Fault) : LogEvent :=
  { level := .warn, message := "failed to close IPP channel", fields := [("error", fault.message)] }

theorem neverOverruns_discard {s : Session} (h : s.exchange.Guarded) :
    s.discard.exchange.channel.Within ∧ (s.discard.exchange.log = (final s.exchange.close).log ∨
      ∃ fault, fault.isOverrun = false ∧
        s.discard.exchange.log = (final s.exchange.close).log ++ [discardFailed fault]) := by
  have hclose := Exchange.ends_close s.exchange h
  unfold discard Exchange.discard
  cases hc : s.exchange.close with
  | ok a e =>
    rw [hc] at hclose
    exact ⟨hclose, .inl rfl⟩
  | error fault e =>
    rw [hc] at hclose
    exact ⟨hclose.2, .inr ⟨fault, hclose.1, rfl⟩⟩

/-- Whatever the buffer size, the streams and the calls are, and whichever of these fail: after every call
the buffers are within their size and the guard is intact. Until the reply is sent every byte that is put
falls in front of the guard, however many were put before it; afterwards none is put. No call fails by an
overrun, and neither does finishing or discarding the exchange in the end. -/
theorem never_overruns (config : Config) (source : Source) (sink : Sink) (declared : Option Nat)
    {calls : List Call} {seen : List Observation} {s : Session}
    (h : play calls { exchange := .opened config source sink declared } = (seen, s)) :
    s.exchange.channel.Within ∧
    (s.exchange.replied = false →
      ∀ before d, Channel.putBytes before s.exchange.channel = .ok () d → d.pending.size < d.size) ∧
    (s.exchange.replied = true →
      ∀ header, s.exchange.sendReply header = .error .replyAlreadySent s.exchange) ∧
    (∀ o ∈ seen, ∀ fault ∈ o.fault?, fault.isOverrun = false) ∧
    (s.finish.2.exchange.channel.Within ∧ ∀ fault ∈ s.finish.1.fault?, fault.isOverrun = false) ∧
    (s.discard.exchange.channel.Within ∧ (s.discard.exchange.log = (final s.exchange.close).log ∨
      ∃ fault, fault.isOverrun = false ∧
        s.discard.exchange.log = (final s.exchange.close).log ++ [discardFailed fault])) := by
  obtain ⟨hguarded, hseen⟩ := guarded_play calls
    (s := { exchange := .opened config source sink declared })
    (Exchange.guarded_opened config source sink declared)
  rw [h] at hguarded hseen
  refine ⟨hguarded.channel, fun hreplied before d hput => ?_, fun hreplied header => ?_, hseen,
    neverOverruns_finish hguarded, neverOverruns_discard hguarded⟩
  · exact (Channel.delivers_putBytes before).hasRoom (hguarded.unsent hreplied) hput
  · exact Exchange.sendReply_of_replied hreplied header

/-- Calls that go on after the reply could not be sent. -/
def stubbornCalls : List Call :=
  [.addStandard, .sendReply false, .addStandard, .sendReply true, .replyFromFile [1, 2, 3],
   .sendReply false]

/-- An exchange with a buffer of two bytes, whose output accepts one byte and then fails. -/
def stubborn : Session :=
  { exchange := .opened { bufferSize := 2 } { rest := [] } { script := [.upTo 1, .fault "gone"] } none }

-- The buffer is full when the reply is given up, and no call puts another byte.
theorem stubborn_never_overruns :
    (stubborn.play stubbornCalls).1.map Observation.fault? =
      [none, some (.io "gone"), none, some .replyAlreadySent, none, some .replyAlreadySent] ∧
    (stubborn.play stubbornCalls).2.exchange.channel.pending.size = 2 ∧
    (stubborn.play stubbornCalls).2.exchange.channel.Within ∧
    ∀ fault ∈ (stubborn.play stubbornCalls).2.finish.1.fault?, fault.isOverrun = false := by
  have hplayed : stubborn.play stubbornCalls =
      ((stubborn.play stubbornCalls).1, (stubborn.play stubbornCalls).2) := (Prod.eta _).symm
  have hend := never_overruns { bufferSize := 2 } { rest := [] } { script := [.upTo 1, .fault "gone"] } none
    hplayed
  refine ⟨by decide +kernel, by decide +kernel, hend.1, ?_⟩
  obtain ⟨-, -, -, -, ⟨-, hfinish⟩, -⟩ := hend
  exact hfinish

end Session
end Ipp
