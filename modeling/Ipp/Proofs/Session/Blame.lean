import Ipp.Proofs.Exchange.Alike
import Ipp.Proofs.Reply.Encodable
import Ipp.Proofs.Request.Faults
import Ipp.Proofs.Session.Steps

/-!
# Who is to blame

When the streams are steady and the handler only claims, nothing that serving a request can fail with is
the fault of the caller, with one exception: an attribute that nobody has claimed may be longer than its
length can say when it is sent back.
-/

namespace Ipp

open Calls

/-- The attribute stands in the request that the bytes begin with. -/
def PlacedForm.StandsIn (p : PlacedForm) (data : List UInt8) : Prop :=
  ∃ (f : RequestForm) (document : List UInt8),
    f.WellFormed ∧ data = f.bytes ++ document ∧ p ∈ f.placed

/-- The fault of an attribute of the request that is sent back longer than its length can say. -/
def Fault.IsOutgrown (root : String) (data : List UInt8) (fault : Fault) : Prop :=
  ∃ p : PlacedForm, p.StandsIn data ∧ p.form.Outgrows root ∧
    fault = .valueTooLong (Text.ofUtf8Lossy p.form.name)

theorem Fault.IsOutgrown.faultClass {root : String} {data : List UInt8} {fault : Fault}
    (h : fault.IsOutgrown root data) : fault.faultClass = .contract := by
  obtain ⟨p, -, -, rfl⟩ := h
  rfl

-- Nothing else stops the encoding of an attribute that is refused.
theorem PlacedForm.StandsIn.isOutgrown {p : PlacedForm} {root : String} {data : List UInt8}
    (h : p.StandsIn data) {fault : Fault}
    (hfault : (p.toAttribute.unsupported.encode root).fault = some fault) :
    fault.IsOutgrown root data := by
  obtain ⟨f, document, hf, hd, hp⟩ := h
  have hyields := (hf.placed hp).encode_yields root .unsupported p.block
  by_cases hlong : p.form.Outgrows root
  · refine ⟨p, ⟨f, document, hf, hd, hp⟩, hlong, ?_⟩
    exact Option.some.inj (hfault.symm.trans (hyields.stopped hlong))
  · have hnone := congrArg Encoding.fault (hyields.whole hlong)
    cases hfault.symm.trans hnone

/-! ## Texts of the library -/

theorem Attribute.fault_encode_ofText {tag : ValueTag} (hfamily : tag.family = .string)
    (huri : tag ≠ .uri) {name text : String} (hname : (Text.utf8 name).length ≤ Wire.longest)
    (htext : (Text.utf8 text).length ≤ Wire.longest) (root : String) :
    ((ofText tag name text).encode root).fault = none := by
  rw [encode_ofText hfamily huri hname htext]
  rfl

namespace Exchange

theorem length_statusMessage {status : Status} {text : String} (h : statusMessage? status = some text) :
    (Text.utf8 text).length ≤ Wire.longest := by
  obtain ⟨before, behind, heq, -⟩ := List.lookup_eq_some_iff.mp h
  have hshort : ∀ entry ∈ before ++ (status, text) :: behind,
      (Text.utf8 entry.2).length ≤ Wire.longest := by
    rw [← heq]
    decide
  exact hshort (status, text) (List.mem_append_right _ List.mem_cons_self)

/-! ## Requests that were read -/

/-- The request was read, and only attributes of it can keep what is queued from being written. -/
structure Sound (root : String) (data : List UInt8) (e : Exchange) : Prop where
  channel : e.channel.Fit
  rooted : e.root = root
  request : ∀ a ∈ e.request, ∃ p : PlacedForm, p.StandsIn data ∧ a = p.toAttribute
  queue : ∀ g a, .attribute a ∈ e.queue.list g → ∀ fault, (a.encode root).fault = some fault →
    fault.IsOutgrown root data
  unsent : e.replied = false
  fileless : e.substitute = none
  unclosed : e.closed = false

variable {root : String} {data : List UInt8} {e e' : Exchange}

theorem Sound.of_sifts (h : e.Sound root data) (hs : e.Sifts e') : e'.Sound root data := by
  have hrequest := hs.request.subset
  obtain ⟨refused, hrefused, hqueue⟩ := hs.queue
  rw [hs.rest, hqueue]
  refine ⟨h.channel, h.rooted, fun a ha => h.request a (hrequest ha), ?_, h.unsent, h.fileless,
    h.unclosed⟩
  intro g a ha fault hfault
  rw [Queue.list_refuse] at ha
  rcases List.mem_append.mp ha with ha | ha
  · exact h.queue g a ha fault hfault
  · split at ha
    · obtain ⟨b, hb, heq⟩ := List.mem_map.mp ha
      cases heq
      obtain ⟨p, hp, rfl⟩ := h.request b (hrefused b hb)
      exact hp.isOutgrown hfault
    · cases ha

theorem Sound.insert (h : e.Sound root data) {a : Attribute} (ha : (a.encode root).fault = none) :
    ({ e with queue := e.queue.insert a } : Exchange).Sound root data := by
  refine ⟨h.channel, h.rooted, h.request, ?_, h.unsent, h.fileless, h.unclosed⟩
  intro g b hb fault hfault
  rw [Queue.insert, Queue.list_append] at hb
  rcases List.mem_append.mp hb with hb | hb
  · exact h.queue g b hb fault hfault
  · split at hb
    · cases List.mem_singleton.mp hb
      rw [ha] at hfault
      cases hfault
    · cases hb

/-- The exchange can be answered: there are operation attributes in its queue. -/
structure Ready (root : String) (data : List UInt8) (e : Exchange) : Prop where
  sound : e.Sound root data
  operation : e.queue.operation ≠ []

theorem Ready.of_sifts (h : e.Ready root data) (hs : e.Sifts e') : e'.Ready root data where
  sound := h.sound.of_sifts hs
  operation hnil := h.operation (hs.operation.symm.trans hnil)

-- A text is queued.
theorem Sound.ready_insert (h : e.Sound root data) {tag : ValueTag} {name text : String}
    (ha : ((Attribute.ofText tag name text).encode root).fault = none) :
    ({ e with queue := e.queue.insert (.ofText tag name text) } : Exchange).Ready root data :=
  ⟨h.insert ha, List.append_ne_nil_of_right_ne_nil _ (List.cons_ne_nil _ _)⟩

/-! ## Stages -/

/-- From an exchange with `P` the call fails without blame, or reaches one with `Q`. -/
abbrev GoesOn (P Q : Exchange → Prop) {α : Type} (x : Action α) : Prop :=
  Ends P x (fun _ => Q) fun fault _ => fault.faultClass ≠ .contract

theorem goesOn_parse {config : Config} {peer : Peer} {source : Source} (hs : source.Steady)
    {sink : Sink} (hk : sink.Steady) (hdeclared : peer.declared = some source.rest.length) :
    GoesOn (· = received config peer source sink) (Sound config.root source.rest) parse := by
  refine ends_of_cases ?_ fun _ h => innocent_parse.error trivial h
  rintro _ ⟨⟩ e rfl h
  have hparses := keeps_parse.ok h
  obtain ⟨f, hf, hu, -, hrequest⟩ := wellFormed_of_parse h
  have hupcoming : (received config peer source sink).channel.upcoming = source.rest := by
    unfold received
    rw [hdeclared]
    exact upcoming_opened config source sink
  have hfit : (received config peer source sink).channel.Fit := by
    refine Channel.fit_opened hs hk (fun n hn => ?_) _
    rw [hdeclared] at hn
    cases hn
    exact Nat.le_refl _
  have hrest := hparses.rest
  rw [hupcoming] at hu
  refine ⟨hfit.of_reads hparses.reads, by rw [hrest]; rfl, fun a ha => ?_, fun g a ha => ?_,
    by rw [hrest]; rfl, by rw [hrest]; rfl, by rw [hrest]; rfl⟩
  · rw [hrequest, f.attributes_eq_placed] at ha
    obtain ⟨p, hp, rfl⟩ := List.mem_map.mp ha
    exact ⟨p, ⟨f, _, hf, hu, hp⟩, rfl⟩
  · rw [hrest] at ha
    cases g <;> cases ha

theorem goesOn_addStandard :
    GoesOn (Sound root data) (Ready root data) (queueing Queue.addStandard) := by
  intro e h
  have hcharset : ((Attribute.ofText .charset "attributes-charset" "utf-8").encode root).fault = none :=
    Attribute.fault_encode_ofText rfl (by decide) (by decide) (by decide) root
  have hlanguage : ((Attribute.ofText .naturalLanguage "attributes-natural-language" "en").encode
      root).fault = none :=
    Attribute.fault_encode_ofText rfl (by decide) (by decide) (by decide) root
  rw [queueing, Queue.addStandard_eq]
  exact (h.insert hcharset).ready_insert hlanguage

theorem goesOn_prepare {config : Config} {peer : Peer} {source : Source} (hs : source.Steady)
    {sink : Sink} (hk : sink.Steady) (hdeclared : peer.declared = some source.rest.length) :
    GoesOn (· = received config peer source sink) (Ready config.root source.rest) prepare := by
  have hcheck : GoesOn (Sound config.root source.rest) (Sound config.root source.rest)
      (modifyGet precheck) :=
    fun e h => h.of_sifts (precheck_sifts e)
  have hlast : GoesOn (Sound config.root source.rest) (Ready config.root source.rest) (do
      queueing Queue.addStandard
      return decide ((← get).status = Status.ok)) :=
    goesOn_addStandard.bind fun _ => ends_get_bind fun e _ => ends_pure fun _ h => h
  refine (goesOn_parse hs hk hdeclared).bind fun _ => hcheck.bind fun failed => ?_
  cases failed with
  | none => exact hlast
  | some status =>
    have hstatus : GoesOn (Sound config.root source.rest) (Sound config.root source.rest)
        (modify fun e => { e with status }) :=
      fun e h => ⟨h.channel, h.rooted, h.request, h.queue, h.unsent, h.fileless, h.unclosed⟩
    exact hstatus.bind fun _ => hlast

/-- Nothing keeps the exchange from being closed. -/
structure Closable (e : Exchange) : Prop where
  channel : e.channel.Fit
  unclosed : e.closed = false

/-- An exchange that is ready is answered, unless an attribute of the request is too long to be sent back. -/
abbrev Answers (root : String) (data : List UInt8) {α : Type} (x : Action α) : Prop :=
  Ends (Ready root data) x (fun _ => Closable) fun fault _ => fault.IsOutgrown root data

theorem answers_sendReply (header : Bool) : Answers root data (sendReply header) := by
  intro e h
  have hswept := h.of_sifts (sweep_sifts e)
  obtain ⟨c, hsends, heq⟩ := sendReply_of_open h.sound.channel.isOpen h.sound.unsent h.sound.fileless
    hswept.operation header
  rw [heq]
  cases hfault : (encodeReply e.root e.header e.status e.sweep.queue).fault with
  | none => exact ⟨h.sound.channel.of_sends hsends, hswept.sound.unclosed⟩
  | some fault =>
    obtain ⟨g, a, ha, hstopped⟩ := exists_of_fault_encodeReply hfault
    rw [h.sound.rooted] at hstopped
    exact hswept.sound.queue g a ha fault hstopped

theorem answers_answer (emitHeader : Bool) : Answers root data (answer emitHeader) := by
  have hsend : Answers root data (do
      sendReply emitHeader
      return (← get).status) :=
    (answers_sendReply emitHeader).bind fun _ => ends_get_bind fun e _ => ends_pure fun _ h => h
  refine ends_get_bind fun e _ => ?_
  cases hm : statusMessage? e.status with
  | none => exact hsend
  | some text =>
    have htext : ((Attribute.ofText .text "status-message" text).encode root).fault = none :=
      Attribute.fault_encode_ofText rfl (by decide) (by decide) (length_statusMessage hm) root
    have hqueued : Ends (Ready root data) (queueing (Queue.addString .operation .text
        "status-message" text)) (fun _ => Ready root data) fun fault _ => fault.IsOutgrown root data :=
      fun e h => h.sound.ready_insert htext
    exact hqueued.bind fun _ => hsend

theorem Closable.outcome_conclude (h : e.Closable) {ω : Type} (status : Status) (report : Option ω) :
    (e.conclude (.ok status) report).outcome = .ok status := by
  have hthrough : e.through e.channel = e := by
    unfold through
    rw [← h.unclosed]
  obtain ⟨d, hclose, -⟩ := close_through e h.channel
  rw [hthrough] at hclose
  unfold conclude
  rw [hclose]

-- A fault that the exchange came with stays its outcome, whether or not it can be closed.
theorem outcome_conclude_error (e : Exchange) {ω : Type} (fault : Fault) (report : Option ω) :
    (e.conclude (.error fault) report).outcome = .error fault := by
  unfold conclude
  cases e.close <;> rfl

theorem Ready.answerAndConclude (h : e.Ready root data) {ω : Type} (emitHeader : Bool)
    (report : Option ω) {fault : Fault}
    (hfault : (e.answerAndConclude emitHeader report).outcome = .error fault) :
    fault.IsOutgrown root data := by
  have hanswer := answers_answer emitHeader e h
  unfold Exchange.answerAndConclude at hfault
  cases ha : answer emitHeader e with
  | ok status e' =>
    rw [ha] at hanswer hfault
    cases (hanswer.outcome_conclude status report).symm.trans hfault
  | error fault' e' =>
    rw [ha] at hanswer hfault
    cases (outcome_conclude_error e' fault' report).symm.trans hfault
    exact hanswer

end Exchange

/-! ## Whole exchanges -/

/-- The handler only looks and claims, and is content with what it finds. -/
def Handler.OnlyClaims {ω : Type} (handler : Handler ω) : Prop :=
  ∀ e, (handler e).outcome = .ok () ∧ ∃ calls : List Call, (∀ call ∈ calls, call.claims = true) ∧
    (handler e).exchange = (Session.play calls { exchange := e }).2.exchange

/-- When the streams are steady and the handler only claims, the one contract that serving a request can
break is that of an attribute of the request which is sent back longer than its length can say. -/
theorem serve_blames_outgrown {ω : Type} (config : Config) {peer : Peer} {source : Source}
    (hs : source.Steady) {sink : Sink} (hk : sink.Steady)
    (hdeclared : peer.declared = some source.rest.length) {handler : Handler ω}
    (hhandler : handler.OnlyClaims) {fault : Fault}
    (hfault : (serve config peer source sink handler).outcome = .error fault)
    (hclass : fault.faultClass = .contract) : fault.IsOutgrown config.root source.rest := by
  have hprepare := Exchange.goesOn_prepare hs hk hdeclared (.received config peer source sink) rfl
  unfold serve at hfault
  cases hp : Exchange.prepare (.received config peer source sink) with
  | error fault' e =>
    rw [hp] at hprepare hfault
    cases (Exchange.outcome_conclude_error e fault' none).symm.trans hfault
    exact absurd hclass hprepare
  | ok goesOn e =>
    rw [hp] at hprepare hfault
    cases goesOn with
    | false => exact hprepare.answerAndConclude config.emitHeader none hfault
    | true =>
      obtain ⟨hok, calls, hcalls, hplayed⟩ := hhandler e
      have hsifts := Session.sifts_play hcalls { exchange := e }
      rw [← hplayed] at hsifts
      dsimp only at hfault
      rw [hok] at hfault
      exact (hprepare.of_sifts hsifts).answerAndConclude config.emitHeader _ hfault

/-! ### The exception -/

namespace Exchange

-- A request of another version is not looked at.
theorem prepare_of_version {e e₁ : Exchange} (hparse : parse e = .ok () e₁)
    (hversion : e₁.header.major ≠ 1) :
    ∃ e₂, prepare e = .ok false e₂ ∧ e₂.status = Status.versionNotSupported ∧
      e₂.request = e₁.request := by
  have hcheck : (modifyGet precheck : Action (Option Status)) e₁ =
      .ok (some Status.versionNotSupported) e₁ := by
    have hrefused : precheck e₁ = (some Status.versionNotSupported, e₁) := if_pos hversion
    exact congrArg (fun checked => EStateM.Result.ok checked.1 checked.2) hrefused
  refine ⟨{ e₁ with
    status := Status.versionNotSupported
    queue := (e₁.queue.insert (.ofText .charset "attributes-charset" "utf-8")).insert
      (.ofText .naturalLanguage "attributes-natural-language" "en") }, ?_, rfl, rfl⟩
  rw [prepare, bind_of_ok hparse, bind_of_ok hcheck]
  rfl

-- A reply is not written as long as something that is swept outgrows its length.
theorem answer_of_outgrown {root : String} {data : List UInt8} {e : Exchange} (h : e.Ready root data)
    (hsilent : statusMessage? e.status = none) {p : PlacedForm} (hp : p.StandsIn data)
    (hleft : p.toAttribute ∈ e.request) (hswept : isSwept p.toAttribute = true)
    (hlong : p.form.Outgrows root) (emitHeader : Bool) :
    ∃ fault e', answer emitHeader e = .error fault e' ∧ fault.IsOutgrown root data := by
  have hanswer := answers_answer emitHeader e h
  cases ha : answer emitHeader e with
  | error fault e' =>
    rw [ha] at hanswer
    exact ⟨fault, e', rfl, hanswer⟩
  | ok status e' =>
    unfold answer at ha
    rw [get_bind, hsilent] at ha
    obtain ⟨⟨⟩, e₁, hsent, -⟩ := bind_eq_ok.mp ha
    obtain ⟨-, hfault, -⟩ := sendReply_ok h.sound.fileless hsent
    have hqueued : .attribute p.toAttribute.unsupported ∈ e.sweep.queue.list .unsupported := by
      rw [list_sweep]
      exact List.mem_append_right _ (List.mem_map_of_mem (List.mem_filter.mpr ⟨hleft, hswept⟩))
    have hwritten := fault_encode_of_encodeGroup ((encodeReply_bytes hfault).1 .unsupported (by decide))
      hqueued
    obtain ⟨f, document, hf, -, hmem⟩ := hp
    have hstopped := ((hf.placed hmem).encode_yields root .unsupported p.block).stopped hlong
    rw [h.sound.rooted] at hwritten
    cases hstopped.symm.trans hwritten

end Exchange

/-- Where the version of a request is not supported nothing of it is claimed, and it is enough that one
operation or job attribute outgrows its length. -/
theorem serve_of_outgrown {ω : Type} (config : Config) {peer : Peer} {source : Source}
    (hs : source.Steady) {sink : Sink} (hk : sink.Steady)
    (hdeclared : peer.declared = some source.rest.length) (handler : Handler ω) {f : RequestForm}
    (hf : f.WellFormed) {document : List UInt8} (hd : source.rest = f.bytes ++ document)
    (hversion : f.header.major ≠ 1) {p : PlacedForm} (hp : p ∈ f.placed)
    (hswept : Exchange.isSwept p.toAttribute = true) (hlong : p.form.Outgrows config.root) :
    ∃ fault, (serve config peer source sink handler).outcome = .error fault ∧
      fault.IsOutgrown config.root source.rest := by
  have hupcoming : (Exchange.received config peer source sink).channel.upcoming = f.bytes ++ document := by
    unfold Exchange.received
    rw [hdeclared, ← hd]
    exact Exchange.upcoming_opened config source sink
  have henough : (Exchange.received config peer source sink).DeclaresEnough := by
    intro n hn
    have hlength : peer.declared = some n := hn
    rw [hdeclared, hd, List.length_append] at hlength
    have := f.header_lt_length
    cases hlength
    omega
  obtain ⟨c, log, hparse, -, -⟩ := Exchange.parse_of_bytes
    (Channel.steady_opened hs sink peer.declared _) henough hf hupcoming
  obtain ⟨e, hprepare, hstatus, hrequest⟩ := Exchange.prepare_of_version hparse hversion
  have hready := (Exchange.goesOn_prepare hs hk hdeclared).ok rfl hprepare
  have hstands : p.StandsIn source.rest := ⟨f, document, hf, hd, hp⟩
  have hleft : p.toAttribute ∈ e.request := by
    rw [hrequest]
    show p.toAttribute ∈ [] ++ f.attributes
    rw [List.nil_append, f.attributes_eq_placed]
    exact List.mem_map_of_mem hp
  have hsilent : Exchange.statusMessage? e.status = none := by
    rw [hstatus]
    decide
  obtain ⟨fault, e', hanswer, houtgrown⟩ := Exchange.answer_of_outgrown hready hsilent hstands hleft
    hswept hlong config.emitHeader
  refine ⟨fault, ?_, houtgrown⟩
  unfold serve
  rw [hprepare]
  show (e.answerAndConclude config.emitHeader none).outcome = _
  unfold Exchange.answerAndConclude
  rw [hanswer]
  exact Exchange.outcome_conclude_error e' fault none

-- A URI behind the root may have no place in its length.
theorem AttributeForm.outgrows_of_rooted {f : AttributeForm} {root : String}
    (hrooted : f.tag.isRooted f.value = true)
    (hlong : Wire.longest < (Text.utf8 root).length + f.value.length) : f.Outgrows root := by
  have huri : f.tag = .uri := of_decide_eq_true (Bool.and_eq_true_iff.mp hrooted).1
  have hfamily : f.tag.family = .string := by
    rw [huri]
    rfl
  have hvalue : f.tag.echo root f.value = Text.utf8 root ++ f.value := by
    unfold ValueTag.echo
    rw [hfamily]
    exact if_pos hrooted
  refine .inr ⟨(f.tag, f.tag.echo root f.value), List.mem_cons_self, ?_⟩
  rw [hvalue, List.length_append]
  exact hlong

/-- A path of the greatest length that a value can have. -/
def longestPath : AttributeForm :=
  ⟨.uri, [117], 47 :: List.replicate (Wire.longest - 1) 97, []⟩

theorem length_longestPath : longestPath.value.length = Wire.longest := by
  rw [longestPath, List.length_cons, List.length_replicate]
  decide

theorem wellFormed_longestPath : longestPath.WellFormed where
  items i hi := by
    cases List.mem_singleton.mp hi
    exact ⟨by decide, by decide, Nat.le_of_eq length_longestPath⟩
  named := List.cons_ne_nil _ _
  value := ValueTag.fits_of_string rfl _
  more := nofun

theorem outgrows_longestPath {root : String} (hroot : root ≠ "") : longestPath.Outgrows root := by
  have hbytes : longestPath.value =
      Text.utf8 ("/" ++ String.ofList (List.replicate (Wire.longest - 1) 'a')) := by
    rw [Text.utf8_append, Text.utf8_replicate]
    rfl
  have hrooted : longestPath.tag.isRooted longestPath.value = true := by
    rw [hbytes, ValueTag.isRooted, Text.ofUtf8?_utf8, Option.any_some, String.toList_append]
    rfl
  have hlength := List.length_pos_iff.mpr (Text.utf8_ne_nil hroot)
  refine AttributeForm.outgrows_of_rooted hrooted ?_
  rw [length_longestPath]
  omega

/-- A request of another version with such a path. -/
def hugeInquiry : RequestForm :=
  { header := { major := 2, operation := 0x000B, requestId := 7 }
    groups := [⟨.operation, [longestPath]⟩] }

/-- A handler that makes no call. -/
def idle : Handler Unit := fun exchange =>
  { outcome := .ok (), exchange, report := () }

theorem idle_onlyClaims : idle.OnlyClaims :=
  fun _ => ⟨rfl, [], nofun, rfl⟩

theorem wellFormed_hugeInquiry : hugeInquiry.WellFormed := by
  intro g hg
  cases List.mem_singleton.mp hg
  intro a ha
  cases List.mem_singleton.mp ha
  exact wellFormed_longestPath

theorem steady_hugeInquiry : ({ rest := hugeInquiry.bytes } : Source).Steady :=
  nofun

theorem steady_idle : ({} : Sink).Steady := by
  decide

theorem serve_hugeInquiry :
    ∃ fault, (serve {} { declared := some hugeInquiry.bytes.length } { rest := hugeInquiry.bytes } {}
      idle).outcome = .error fault ∧ fault.faultClass = .contract := by
  have hdeclared : ({ declared := some hugeInquiry.bytes.length } : Peer).declared =
      some ({ rest := hugeInquiry.bytes } : Source).rest.length :=
    rfl
  have hplaced : ⟨.operation, 1, longestPath⟩ ∈ hugeInquiry.placed := List.mem_singleton_self _
  obtain ⟨fault, hfault, houtgrown⟩ := serve_of_outgrown {} steady_hugeInquiry steady_idle hdeclared idle
    wellFormed_hugeInquiry (List.append_nil _).symm (by decide) hplaced rfl
    (outgrows_longestPath (by decide))
  exact ⟨fault, hfault, houtgrown.faultClass⟩

-- A handler that asks for nothing has nothing to do with it: the request alone breaks a contract.
theorem hugeInquiry_breaks_contract :
    ({ rest := hugeInquiry.bytes } : Source).Steady ∧ ({} : Sink).Steady ∧ idle.OnlyClaims ∧
    ∃ fault, (serve {} { declared := some hugeInquiry.bytes.length } { rest := hugeInquiry.bytes } {}
      idle).outcome = .error fault ∧ fault.faultClass = .contract :=
  ⟨steady_hugeInquiry, steady_idle, idle_onlyClaims, serve_hugeInquiry⟩

theorem hugeInquiry_outgrown :
    ∃ fault, (serve {} { declared := some hugeInquiry.bytes.length } { rest := hugeInquiry.bytes } {}
      idle).outcome = .error fault ∧ fault.IsOutgrown ({} : Config).root hugeInquiry.bytes := by
  have hdeclared : ({ declared := some hugeInquiry.bytes.length } : Peer).declared =
      some ({ rest := hugeInquiry.bytes } : Source).rest.length :=
    rfl
  obtain ⟨fault, hfault, hclass⟩ := serve_hugeInquiry
  exact ⟨fault, hfault,
    serve_blames_outgrown {} steady_hugeInquiry steady_idle hdeclared idle_onlyClaims hfault hclass⟩

end Ipp
