import Ipp.Proofs.Channel.Breaking
import Ipp.Proofs.Exchange.Checks
import Ipp.Proofs.Exchange.Replying
import Ipp.Proofs.Session.Blame
import Ipp.Proofs.Session.Course
import Ipp.Proofs.Session.Queueing
import Ipp.Proofs.Session.Unclaimed

/-!
# What stands in front of the handler

The handler is called for a request that was read and has passed the checks, and for no other. Whatever it
queues, a reply begins with the same two attributes; and without a reply nothing is sent.
-/

namespace Ipp

open Calls

/-- The two attributes that open the operation group of every reply. -/
def openingForms : List AttributeForm :=
  [⟨.charset, Text.utf8 "attributes-charset", Text.utf8 "utf-8", []⟩,
   ⟨.naturalLanguage, Text.utf8 "attributes-natural-language", Text.utf8 "en", []⟩]

/-- The same two as they are queued. -/
def openingEntries : List Entry :=
  [.attribute (.ofText .charset "attributes-charset" "utf-8"),
   .attribute (.ofText .naturalLanguage "attributes-natural-language" "en")]

/-- The bytes that a reply with this status begins with, to a request with this header. -/
def openingBytes (emitHeader : Bool) (h : Header) (status : Status) : List UInt8 :=
  Exchange.replyPreamble emitHeader ++
    h.replyVersion.1 :: h.replyVersion.2 :: (Wire.ofUInt16 status ++ Wire.ofUInt32 h.requestId ++
      Group.operation.delimiter :: openingForms.flatMap AttributeForm.bytes)

-- A group that begins with them is written so.
theorem encodeGroup_opening (root : String) {entries : List Entry} (h : openingEntries <+: entries) :
    Group.operation.delimiter :: openingForms.flatMap AttributeForm.bytes <+:
      (encodeGroup root .operation entries).bytes := by
  obtain ⟨rest, rfl⟩ := h
  have hcharset : (Attribute.ofText .charset "attributes-charset" "utf-8").encode root = _ :=
    Attribute.encode_ofText rfl (by decide) (by decide) (by decide) root
  have hlanguage : (Attribute.ofText .naturalLanguage "attributes-natural-language" "en").encode root = _ :=
    Attribute.encode_ofText rfl (by decide) (by decide) (by decide) root
  refine ⟨(encodeEntries root .operation rest).bytes, ?_⟩
  show _ = (Encoding.ofBytes [Group.operation.delimiter] ++
    ((Attribute.ofText .charset "attributes-charset" "utf-8").encode root ++
      ((Attribute.ofText .naturalLanguage "attributes-natural-language" "en").encode root ++
        encodeEntries root .operation rest))).bytes
  rw [hcharset, hlanguage, Encoding.append_of_none rfl, Encoding.append_of_none rfl,
    Encoding.append_of_none rfl]
  simp only [Encoding.ofBytes, openingForms, List.flatMap_cons, List.flatMap_nil, List.append_nil,
    List.append_assoc, List.nil_append, List.cons_append]

theorem encodeReply_opening {root : String} {h : Header} {status : Status} {q : Queue}
    (hfault : (encodeReply root h status q).fault = none) (hopens : openingEntries <+: q.operation)
    (emitHeader : Bool) : openingBytes emitHeader h status <+:
      Exchange.replyPreamble emitHeader ++ (encodeReply root h status q).bytes := by
  obtain ⟨more, hmore⟩ := encodeGroup_opening root hopens
  have hbytes : (encodeReply root h status q).bytes = encodeReplyHeader h status ++
      ((encodeGroup root .operation q.operation).bytes ++ (([.printer, .job, .unsupported].flatMap
        fun g => (encodeGroup root g (q.list g)).bytes) ++ [endOfAttributes])) := by
    rw [(encodeReply_bytes hfault).2, replyOrder, List.flatMap_cons, List.append_assoc]
    rfl
  rw [hbytes, ← hmore]
  refine ⟨more ++ (([.printer, .job, .unsupported].flatMap
    fun g => (encodeGroup root g (q.list g)).bytes) ++ [endOfAttributes]), ?_⟩
  simp only [openingBytes, encodeReplyHeader, List.append_assoc, List.cons_append]

namespace Exchange

variable {sent : List UInt8} {h : Header} {e e' : Exchange}

/-! ## Silence -/

/-- The output has accepted `sent`, and no more is about to be sent. -/
structure Silent (sent : List UInt8) (e : Exchange) : Prop where
  sent : e.channel.sink.bytes = sent
  pending : e.channel.pending = #[]

theorem Silent.of_reads (hs : e.Silent sent) (hr : e.channel.Reads e'.channel) : e'.Silent sent where
  sent := by
    rw [hr.sink]
    exact hs.sent
  pending := hr.pending.trans hs.pending

theorem silent_received (config : Config) (peer : Peer) (source : Source) (sink : Sink) :
    (received config peer source sink).Silent sink.bytes :=
  ⟨rfl, rfl⟩

-- Closing sends nothing then.
theorem Silent.close (hs : e.Silent sent) : (final e.close).channel.sink.bytes = sent := by
  unfold Exchange.close
  by_cases hclosed : e.closed = true
  · rw [if_pos hclosed]
    exact hs.sent
  · rw [if_neg hclosed, final_onChannel]
    obtain ⟨k, hbytes⟩ := e.channel.sink_finish
    rw [hbytes, hs.pending, hs.sent]
    show sent ++ List.take k [] = sent
    rw [List.take_nil, List.append_nil]

theorem silent_sendReply {header : Bool} (hfile : e.substitute = none)
    (hsent : sendReply header e = .ok () e') : e'.channel.pending = #[] := by
  obtain ⟨hreplied, -⟩ := sendReply_ok hfile hsent
  rw [sendReply_of_queue hreplied hfile] at hsent
  split at hsent
  · cases hsent
  · obtain ⟨c, hput, rfl⟩ := onChannel_eq_ok.mp hsent
    exact (putEncoding_ok hput).2.2.2

/-! ## Replies that are begun -/

/-- Nothing has been sent in answer to the request with this header, and the reply has its opening. -/
structure Begun (sent : List UInt8) (h : Header) (e : Exchange) : Prop where
  silent : e.Silent sent
  header : e.header = h
  opens : openingEntries <+: e.queue.operation

theorem Begun.of_works (ho : e.Begun sent h) (hw : e.Works e')
    (hq : e.queue.Extends (fun _ => True) e'.queue) : e'.Begun sent h where
  silent := ho.silent.of_reads hw.reads
  header := hw.header.trans ho.header
  opens := ho.opens.trans hq.operation

theorem Begun.worded (ho : e.Begun sent h) : e.worded.Begun sent h := by
  refine ho.of_works e.worded_works ?_
  unfold Exchange.worded
  cases statusMessage? e.status with
  | none => exact .refl _
  | some text => exact e.queue.extends_insert trivial

theorem substitute_worded (e : Exchange) : e.worded.substitute = e.substitute := by
  unfold worded
  cases statusMessage? e.status <;> rfl

theorem status_worded (e : Exchange) : e.worded.status = e.status := by
  unfold worded
  cases statusMessage? e.status <;> rfl

-- The checks leave the queue of a fresh exchange to the two attributes.
theorem Silent.checked (hs : e.Silent sent) (hempty : e.queue.operation = []) :
    e.checked.Begun sent e.header := by
  have hworks := e.checked_works
  have hoperation : (precheck e).2.queue.operation = [] := (precheck_sifts e).operation.trans hempty
  refine ⟨hs.of_reads hworks.reads, hworks.header, ?_⟩
  have hopens : e.checked.queue.operation = (precheck e).2.queue.operation ++ openingEntries :=
    List.append_assoc _ _ _
  rw [hopens, hoperation]
  exact List.prefix_refl _

/-- An answer from the queue, behind its opening, has the status of the exchange and begins as every reply
does. -/
theorem Begun.answer (hb : e.Begun sent h) (hfile : e.substitute = none) {emitHeader : Bool}
    {status : Status} (ha : Exchange.answer emitHeader e = .ok status e') :
    status = e.status ∧ e'.channel.pending = #[] ∧
      sent ++ openingBytes emitHeader h status <+: e'.channel.sink.bytes := by
  have hworded := hb.worded
  have hfile' := e.substitute_worded.trans hfile
  rw [answer_eq] at ha
  cases hs : sendReply emitHeader e.worded with
  | error fault e'' =>
    rw [hs] at ha
    cases ha
  | ok _ e'' =>
    rw [hs] at ha
    cases ha
    obtain ⟨-, hfault, c, heq, hbytes⟩ := sendReply_ok hfile' hs
    have hstatus : e'.status = e.worded.status := by
      rw [heq]
      exact e.worded.sweep_status
    have hchannel : e'.channel = c := by rw [heq]
    have hproduced : e.worded.channel.produced = sent := by
      rw [Channel.produced, hworded.silent.pending, hworded.silent.sent]
      exact List.append_nil _
    have hopens : openingEntries <+: e.worded.sweep.queue.operation := by
      rw [(sweep_sifts e.worded).operation]
      exact hworded.opens
    refine ⟨hstatus.trans e.status_worded, silent_sendReply hfile' hs, ?_⟩
    rw [hchannel, hbytes, hproduced, hstatus, ← hworded.header]
    exact (List.prefix_append_right_inj sent).mpr (encodeReply_opening hfault hopens emitHeader)

/-! ## The end -/

theorem report_conclude {ω : Type} (outcome : Except Fault Status) (report : Option ω) (e : Exchange) :
    (e.conclude outcome report).report = report := by
  unfold conclude
  cases outcome <;> cases e.close <;> rfl

theorem report_answerAndConclude {ω : Type} (emitHeader : Bool) (report : Option ω) (e : Exchange) :
    (e.answerAndConclude emitHeader report).report = report := by
  unfold answerAndConclude
  cases answer emitHeader e <;> exact report_conclude _ _ _

theorem status_of_conclude {ω : Type} {status status' : Status} {report : Option ω}
    (hdone : (e.conclude (.ok status') report).outcome = .ok status) : status' = status := by
  unfold conclude at hdone
  cases hc : e.close with
  | ok _ e' =>
    rw [hc] at hdone
    cases hdone
    rfl
  | error fault e' =>
    rw [hc] at hdone
    cases hdone

-- Where an answer is the outcome, it was sent.
theorem answer_of_outcome {ω : Type} {emitHeader : Bool} {report : Option ω} {status : Status}
    (ho : (e.answerAndConclude emitHeader report).outcome = .ok status) :
    ∃ e', answer emitHeader e = .ok status e' ∧
      (e.answerAndConclude emitHeader report).exchange.channel = (final e'.close).channel := by
  unfold answerAndConclude at ho ⊢
  cases ha : answer emitHeader e with
  | error fault e' =>
    rw [ha] at ho
    cases (outcome_conclude_error e' fault report).symm.trans ho
  | ok status' e' =>
    rw [ha] at ho
    rw [status_of_conclude ho]
    exact ⟨e', rfl, channel_conclude _ _ _⟩

-- So it is with the output in the end.
theorem Begun.answerAndConclude (hb : e.Begun sent h) (hfile : e.substitute = none) {ω : Type}
    {emitHeader : Bool} {report : Option ω} {status : Status}
    (hdone : (e.answerAndConclude emitHeader report).outcome = .ok status) :
    status = e.status ∧ sent ++ openingBytes emitHeader h status <+:
      (e.answerAndConclude emitHeader report).exchange.channel.sink.bytes := by
  obtain ⟨e', ha, hchannel⟩ := answer_of_outcome hdone
  obtain ⟨hstatus, hpending, hbytes⟩ := hb.answer hfile ha
  refine ⟨hstatus, ?_⟩
  rw [hchannel, Silent.close ⟨rfl, hpending⟩]
  exact hbytes

theorem unsent_of_answer {emitHeader : Bool} {status : Status}
    (ha : answer emitHeader e = .ok status e') : e.replied = false := by
  refine Bool.eq_false_iff.mpr fun hreplied => ?_
  have hworded : e.worded.replied = true := e.worded_works.replied.trans hreplied
  rw [answer_eq, sendReply_of_replied hworded] at ha
  cases ha

end Exchange

/-! ## Handlers -/

/-- The handler changes the exchange by calls only, and does not read the request again. -/
def Handler.NeverParses {ω : Type} (handler : Handler ω) : Prop :=
  ∀ e, ∃ calls : List Call, (∀ call ∈ calls, call.parses = false) ∧
    (handler e).exchange = (Session.play calls { exchange := e }).2.exchange

-- As long as it has sent no reply, nothing is sent, and the opening of the reply is where it was.
theorem Handler.NeverParses.begun {ω : Type} {handler : Handler ω} (hhandler : handler.NeverParses)
    {sent : List UInt8} {h : Header} {e : Exchange} (hb : e.Begun sent h)
    (hreplied : (handler e).exchange.replied = false) : (handler e).exchange.Begun sent h := by
  obtain ⟨calls, hcalls, heq⟩ := hhandler e
  rw [heq] at hreplied ⊢
  exact hb.of_works (Session.works_play hcalls hreplied) (Session.extends_play calls _)

/-- What is left of an exchange that was handled so. -/
def Handled.concluded {ω : Type} (emitHeader : Bool) (handled : Handled ω) : Served ω :=
  match handled.outcome with
  | .error fault => handled.exchange.conclude (.error fault) (some handled.report)
  | .ok () => handled.exchange.answerAndConclude emitHeader (some handled.report)

theorem Handled.report_concluded {ω : Type} (emitHeader : Bool) (handled : Handled ω) :
    (handled.concluded emitHeader).report = some handled.report := by
  unfold concluded
  cases handled.outcome with
  | error fault => exact Exchange.report_conclude _ _ _
  | ok _ => exact Exchange.report_answerAndConclude _ _ _

theorem Handled.concluded_of_error {ω : Type} {handled : Handled ω} {fault : Fault}
    (h : handled.outcome = .error fault) (emitHeader : Bool) : handled.concluded emitHeader =
      handled.exchange.conclude (.error fault) (some handled.report) := by
  unfold concluded
  rw [h]

theorem Handled.concluded_of_ok {ω : Type} {handled : Handled ω} (h : handled.outcome = .ok ())
    (emitHeader : Bool) : handled.concluded emitHeader =
      handled.exchange.answerAndConclude emitHeader (some handled.report) := by
  unfold concluded
  rw [h]

/-! ## Whole exchanges -/

section

variable {ω : Type} {config : Config} {peer : Peer} {source : Source} {sink : Sink} {e : Exchange}

theorem serve_of_unread {fault : Fault}
    (hparse : Exchange.parse (.received config peer source sink) = .error fault e) (handler : Handler ω) :
    serve config peer source sink handler = e.conclude (.error fault) none := by
  unfold serve
  rw [Exchange.prepare_eq, hparse]

theorem serve_of_refused (hparse : Exchange.parse (.received config peer source sink) = .ok () e)
    (hrefused : ¬e.Passes) (handler : Handler ω) :
    serve config peer source sink handler = e.checked.answerAndConclude config.emitHeader none := by
  have hstatus := ((Exchange.status_checked (Exchange.status_of_parse hparse)).2 hrefused).ne_ok
  unfold serve
  rw [Exchange.prepare_eq, hparse]
  simp only [decide_eq_false hstatus]

theorem serve_of_passes (hparse : Exchange.parse (.received config peer source sink) = .ok () e)
    (hpasses : e.Passes) (handler : Handler ω) :
    serve config peer source sink handler = (handler e.checked).concluded config.emitHeader := by
  have hstatus := (Exchange.status_checked (Exchange.status_of_parse hparse)).1 hpasses
  unfold serve
  rw [Exchange.prepare_eq, hparse]
  simp only [decide_eq_true hstatus]
  rfl

end

/-- How the handler is guarded where it is given the exchange `e`, if it is called. -/
structure Gatekept {ω : Type} (config : Config) (peer : Peer) (source : Source) (sink : Sink)
    (handler : Handler ω) (e : Exchange) (served : Served ω) : Prop where
  -- It is called once at most: no more than what it does with `e` makes a difference.
  once : ∀ other : Handler ω, (served.report.isSome = true → other e = handler e) →
    serve config peer source sink other = served
  report : ∀ report ∈ served.report, report = (handler e).report
  called : served.report.isSome = true ↔
    ∃ e₁, Exchange.parse (.received config peer source sink) = .ok () e₁ ∧ e₁.Passes
  unread : ∀ fault e₁, Exchange.parse (.received config peer source sink) = .error fault e₁ →
    served.exchange.channel.sink.bytes = sink.bytes
  failed : ∀ fault, served.report.isSome = true → (handler e).outcome = .error fault →
    (handler e).exchange.replied = false → served.exchange.channel.sink.bytes = sink.bytes
  replied : ∀ status, served.outcome = .ok status →
    (served.report.isSome = true → (handler e).exchange.substitute = none) →
    ∃ e₁, Exchange.parse (.received config peer source sink) = .ok () e₁ ∧
      sink.bytes ++ openingBytes config.emitHeader e₁.header status <+:
        served.exchange.channel.sink.bytes ∧
      (served.report = none → e₁.RefusedWith status)

section

variable {ω : Type} {config : Config} {peer : Peer} {source : Source} {sink : Sink} {e : Exchange}

theorem gatekept_of_unread {fault : Fault}
    (hparse : Exchange.parse (.received config peer source sink) = .error fault e) (handler : Handler ω) :
    Gatekept config peer source sink handler e (serve config peer source sink handler) := by
  have hreads := (Exchange.keeps_parse.error hparse).reads
  have hserve := serve_of_unread hparse handler
  have hreport : (serve config peer source sink handler).report = none := by
    rw [hserve]
    exact Exchange.report_conclude _ _ e
  constructor
  · exact fun other _ => (serve_of_unread hparse other).trans hserve.symm
  · rw [hreport]
    exact nofun
  · rw [hreport]
    refine iff_of_false nofun ?_
    rintro ⟨e', hread, -⟩
    cases hparse.symm.trans hread
  · intro _ _ _
    rw [hserve, Exchange.channel_conclude]
    exact ((Exchange.silent_received config peer source sink).of_reads hreads).close
  · rw [hreport]
    exact fun _ h => nomatch h
  · intro status hdone
    rw [hserve, Exchange.outcome_conclude_error] at hdone
    cases hdone

theorem gatekept_of_refused (hparse : Exchange.parse (.received config peer source sink) = .ok () e)
    (hrefused : ¬e.Passes) (handler : Handler ω)
    (hbegun : e.checked.Begun sink.bytes e.header) (hfile : e.checked.substitute = none) :
    Gatekept config peer source sink handler e.checked (serve config peer source sink handler) := by
  have hserve := serve_of_refused hparse hrefused handler
  have hreport : (serve config peer source sink handler).report = none := by
    rw [hserve]
    exact Exchange.report_answerAndConclude _ _ _
  constructor
  · exact fun other _ => (serve_of_refused hparse hrefused other).trans hserve.symm
  · rw [hreport]
    exact nofun
  · rw [hreport, hparse]
    refine iff_of_false nofun ?_
    rintro ⟨_, ⟨⟩, hpasses⟩
    exact hrefused hpasses
  · intro fault e' hunread
    cases hparse.symm.trans hunread
  · rw [hreport]
    exact fun _ h => nomatch h
  · intro status hdone _
    rw [hserve] at hdone ⊢
    obtain ⟨hstatus, hbytes⟩ := hbegun.answerAndConclude hfile hdone
    refine ⟨e, hparse, hbytes, fun _ => ?_⟩
    rw [hstatus]
    exact (Exchange.status_checked (Exchange.status_of_parse hparse)).2 hrefused

theorem gatekept_of_passes (hparse : Exchange.parse (.received config peer source sink) = .ok () e)
    (hpasses : e.Passes) {handler : Handler ω} (hhandler : handler.NeverParses)
    (hbegun : e.checked.Begun sink.bytes e.header) :
    Gatekept config peer source sink handler e.checked (serve config peer source sink handler) := by
  have hserve := serve_of_passes hparse hpasses handler
  have hreport : (serve config peer source sink handler).report = some (handler e.checked).report := by
    rw [hserve]
    exact Handled.report_concluded _ _
  constructor
  · intro other hsame
    rw [serve_of_passes hparse hpasses other, hsame (by rw [hreport]; rfl), hserve]
  · rw [hreport]
    rintro report ⟨⟩
    rfl
  · rw [hreport]
    exact iff_of_true rfl ⟨e, hparse, hpasses⟩
  · intro fault e' hunread
    cases hparse.symm.trans hunread
  · intro fault _ hfault hreplied
    rw [hserve, Handled.concluded_of_error hfault, Exchange.channel_conclude]
    exact (hhandler.begun hbegun hreplied).silent.close
  · intro status hdone hfile
    rw [hreport] at hfile ⊢
    cases houtcome : (handler e.checked).outcome with
    | error fault =>
      rw [hserve, Handled.concluded_of_error houtcome, Exchange.outcome_conclude_error] at hdone
      cases hdone
    | ok _ =>
      rw [hserve, Handled.concluded_of_ok houtcome] at hdone ⊢
      obtain ⟨e', ha, -⟩ := Exchange.answer_of_outcome hdone
      have hhandled := hhandler.begun hbegun (Exchange.unsent_of_answer ha)
      exact ⟨e, hparse, (hhandled.answerAndConclude (hfile rfl) hdone).2, nofun⟩

end

/-- The handler is called once at most, with the exchange as it was prepared, and if and only if the request
was read and passes the checks. Nothing is sent when the request cannot be read, or when the handler fails
and has not tried to reply. What is sent in the end, where no file stands in for it, has the status of the
outcome and the number of the request, and begins with the same two attributes, whatever the handler has
queued; and without the handler the status is that of the first check that failed. -/
theorem serve_gatekeeping {ω : Type} (config : Config) (peer : Peer) (source : Source) (sink : Sink)
    {handler : Handler ω} (hhandler : handler.NeverParses) :
    Gatekept config peer source sink handler (final (Exchange.prepare (.received config peer source sink)))
      (serve config peer source sink handler) := by
  have hsilent := Exchange.silent_received config peer source sink
  rw [Exchange.prepare_eq]
  cases hparse : Exchange.parse (.received config peer source sink) with
  | error fault e => exact gatekept_of_unread hparse handler
  | ok _ e =>
    have hparses := Exchange.keeps_parse.ok hparse
    have hempty : e.queue.operation = [] := by rw [hparses.rest]; rfl
    have hbegun := (hsilent.of_reads hparses.reads).checked hempty
    by_cases hpasses : e.Passes
    · exact gatekept_of_passes hparse hpasses hhandler hbegun
    · have hfile : e.checked.substitute = none := by
        rw [Exchange.substitute_checked, hparses.rest]
        rfl
      exact gatekept_of_refused hparse hpasses handler hbegun hfile

/-- A handler that queues an attribute for the operation group, and claims and refuses another. -/
def eagerHandler : Handler Unit := fun e =>
  { outcome := .ok ()
    exchange := (Session.play
      [.addString .operation .charset "attributes-charset" "latin-1",
       .claim .operation .naturalLanguage "attributes-natural-language", .setStatus Status.notFound]
      { exchange := e }).2.exchange
    report := () }

-- What it queues comes behind the opening, and the status is the one that it has set.
theorem eagerHandler_gatekept :
    (serve {} {} { rest := pipelined } {} eagerHandler).report = some () ∧
    (serve {} {} { rest := pipelined } {} eagerHandler).outcome = .ok Status.notFound ∧
    openingBytes true { major := 1, minor := 1, operation := 0x0002, requestId := 7 } Status.notFound <+:
      (serve {} {} { rest := pipelined } {} eagerHandler).exchange.channel.sink.bytes := by
  have hhandler : eagerHandler.NeverParses := by
    intro e
    refine ⟨_, ?_, rfl⟩
    simp only [List.forall_mem_cons]
    exact ⟨rfl, rfl, rfl, List.forall_mem_nil _⟩
  have hkept := serve_gatekeeping {} {} { rest := pipelined } {} hhandler
  have hreport : (serve {} {} { rest := pipelined } {} eagerHandler).report = some () := by decide +kernel
  have hdone : (serve {} {} { rest := pipelined } {} eagerHandler).outcome = .ok Status.notFound := by
    have hstatus : (serve {} {} { rest := pipelined } {} eagerHandler).outcome.toOption =
        some Status.notFound := by
      decide +kernel
    cases houtcome : (serve {} {} { rest := pipelined } {} eagerHandler).outcome with
    | error fault =>
      rw [houtcome] at hstatus
      cases hstatus
    | ok status =>
      rw [houtcome] at hstatus
      cases hstatus
      rfl
  have hfile : (eagerHandler (final (Exchange.prepare
      (.received {} {} { rest := pipelined } {})))).exchange.substitute = none := by
    decide +kernel
  refine ⟨hreport, hdone, ?_⟩
  obtain ⟨e, hparse, hbytes, -⟩ := hkept.replied Status.notFound hdone fun _ => hfile
  have hheader : (final (Exchange.parse (.received {} {} { rest := pipelined } {}))).header =
      { major := 1, minor := 1, operation := 0x0002, requestId := 7 } := by
    decide +kernel
  rw [hparse] at hheader
  rw [← hheader]
  exact hbytes

end Ipp
