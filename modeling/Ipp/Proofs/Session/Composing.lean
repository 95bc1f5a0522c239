import Ipp.Proofs.Reply.Builder
import Ipp.Proofs.Session.Steps

/-!
# Composing a reply

Whatever calls are made, the queue holds only attributes that can be read back, provided that every
attribute is given a name and what the caller has made is such as a request can contain. Until the reply
is sent nothing is put on the channel.
-/

namespace Ipp

open Calls

theorem Queue.Sendable.refuse {q : Queue} (hq : q.Sendable) {refused : List Attribute}
    (h : ∀ a ∈ refused, a.Sendable) : (q.refuse refused).Sendable := by
  induction refused generalizing q with
  | nil => exact hq
  | cons a refused ih =>
    exact ih (hq.insert (h a List.mem_cons_self).unsupported)
      (fun b hb => h b (List.mem_cons_of_mem a hb))

namespace Exchange

/-- The reply is being composed, and `sent` was put on the channel before. -/
structure Composing (sent : List UInt8) (e : Exchange) : Prop where
  request : ∀ a ∈ e.request, a.IsRead
  queue : e.queue.Sendable
  unsent : e.replied = false → e.channel.produced = sent

/-- The call goes on composing. -/
abbrev KeepsComposing (sent : List UInt8) {α : Type} (x : Action α) : Prop :=
  Keeps (fun e e' => e.Composing sent → e'.Composing sent) x

variable {sent : List UInt8} {e e' : Exchange}

theorem keepsComposing_bind {α β : Type} {x : Action α} {f : α → Action β}
    (hx : KeepsComposing sent x) (hf : ∀ a, KeepsComposing sent (f a)) :
    KeepsComposing sent (x >>= f) :=
  hx.bind (fun h h' => h' ∘ h) hf

theorem Composing.of_reads (h : e.Composing sent) {c : Channel} (hc : e.channel.Reads c) :
    ({ e with channel := c } : Exchange).Composing sent := by
  refine ⟨h.request, h.queue, fun hr => ?_⟩
  rw [← h.unsent hr]
  exact Channel.produced_of_reads hc

theorem Composing.of_parses (h : e.Composing sent) (hp : e.Parses e') : e'.Composing sent := by
  have hread := h.of_reads hp.reads
  have hrequest := hp.request h.request
  rw [hp.rest]
  exact ⟨hrequest, hread.queue, hread.unsent⟩

-- What is refused has been in the request.
theorem Composing.of_sifts (h : e.Composing sent) (hs : e.Sifts e') : e'.Composing sent := by
  have hrequest := hs.request.subset
  obtain ⟨refused, hrefused, hqueue⟩ := hs.queue
  rw [hs.rest, hqueue]
  exact ⟨fun a ha => h.request a (hrequest ha),
    h.queue.refuse fun a ha => (h.request a (hrefused a ha)).sendable, h.unsent⟩

theorem Composing.of_takes (h : e.Composing sent) {key accepts : Attribute → Bool}
    (ht : e.Takes key accepts e') : e'.Composing sent :=
  h.of_sifts ht.sifts

/-! ## Calls -/

theorem keepsComposing_queueing {change : Queue → Except Fault Queue}
    (hchange : ∀ {q q'}, q.Sendable → change q = .ok q' → q'.Sendable) :
    KeepsComposing sent (queueing change) := by
  intro e h
  rw [queueing]
  cases hq : change e.queue with
  | ok q => exact ⟨h.request, hchange h.queue hq, h.unsent⟩
  | error fault => exact h

theorem sendable_of_builds {g : Group} {change : Queue → Except Fault Queue}
    (hb : Queue.Builds g change) {q q' : Queue} (hq : q.Sendable) (h : change q = .ok q') :
    q'.Sendable := by
  obtain ⟨a, -, ha, rfl⟩ := hb h
  exact hq.insert ha

-- Once the reply was sent it does not matter what was put on the channel.
theorem Composing.replied (h : e.Composing sent) (substitute : Option (List UInt8)) (c : Channel) :
    ({ e with replied := true, substitute, channel := c } : Exchange).Composing sent :=
  ⟨h.request, h.queue, nofun⟩

theorem Composing.sweep (h : e.Composing sent) : e.sweep.Composing sent :=
  h.of_sifts (sweep_sifts e)

theorem keepsComposing_sendReply (header : Bool) : KeepsComposing sent (sendReply header) := by
  intro e h
  by_cases hreplied : e.replied = true
  · rw [final_sendReply_of_replied hreplied]
    exact h
  · have hfresh : e.replied = false := Bool.eq_false_iff.mpr hreplied
    obtain ⟨e', x, hsifts, -, heq⟩ := final_sendReply hfresh header
    rw [heq]
    exact (h.of_sifts hsifts).replied none _

theorem Composing.deliver (h : e.Composing sent) {α : Type} (summary : Array UInt8 → α)
    (sink : Sink) : (e.deliver summary sink).exchange.Composing sent :=
  h.of_reads (Channel.reads_copyRest sink e.channel)

theorem Composing.forwardRequest (h : e.Composing sent) (sink : Sink) :
    (e.forwardRequest sink).exchange.Composing sent := by
  have hr := Channel.keeps_rewind e.channel
  rw [Exchange.forwardRequest, onChannel]
  cases hc : Channel.rewind e.channel with
  | ok a c =>
    rw [hc] at hr
    exact (h.of_reads hr).deliver Array.size sink
  | error fault c =>
    rw [hc] at hr
    exact h.of_reads hr

theorem Composing.classify (h : e.Composing sent) (caps : Capabilities) :
    (WellKnown.classify caps e).2.Composing sent :=
  h.of_sifts (classify_sifts caps e)

theorem keepsComposing_echoBehind {attributes : List Attribute} (h : ∀ a ∈ attributes, a.IsRead)
    (before : Option Attribute) : KeepsComposing sent (echoBehind before attributes) := by
  induction attributes generalizing before with
  | nil => exact keeps_pure (fun _ => id) _
  | cons a attributes ih =>
    have hcopy : KeepsComposing sent (queueing (Queue.addCopy a.group a)) :=
      keepsComposing_queueing (sendable_of_builds
        (Queue.builds_addCopy (h a List.mem_cons_self).sendable))
    have hclaim : KeepsComposing sent (modifyGet (claim a.group a.tag a.name)) :=
      fun e he => he.of_takes (claim_takes a.group a.tag a.name e).2
    have hrest := ih (fun b hb => h b (List.mem_cons_of_mem a hb)) (some a)
    have hbehind : KeepsComposing sent (do
        queueing (Queue.addCopy a.group a)
        let _ ← modifyGet (claim a.group a.tag a.name)
        echoBehind (some a) attributes) :=
      keepsComposing_bind hcopy fun _ => keepsComposing_bind hclaim fun _ => hrest
    have hend : KeepsComposing sent (queueing (·.insertEnd a.group)) :=
      keepsComposing_queueing fun hq hq' => hq.insertEnd hq'
    exact keeps_ite (keepsComposing_bind hend fun _ => hbehind) hbehind

theorem keepsComposing_echo : KeepsComposing sent echo := by
  intro e he
  have hcount : KeepsComposing sent (pure e.request.length) := keeps_pure (fun _ => id) _
  exact keepsComposing_bind (keepsComposing_echoBehind he.request none) (fun _ => hcount) e he

end Exchange

/-! ## Sessions -/

/-- The attribute is one that a request can contain; one that was handed out always is. -/
def Handle.IsRead : Handle → Prop
  | .held _ => True
  | .made a => a.IsRead

/-- What the call queues has a name, and what the caller has made is such as a request can contain. -/
def Call.Composes : Call → Prop
  | .demote a | .addCopy _ a => a.IsRead
  | .addInteger _ _ name _ | .addIntegers _ _ name _ | .addString _ _ name _ | .addStrings _ _ name _
  | .addBoolean _ _ name _ | .addOutOfBand _ _ name | .addTemplate _ _ name _ _
  | .addTemplates _ _ name _ _ => name ≠ ""
  | _ => True

namespace Session

/-- The reply is being composed, and the caller holds attributes of the request. -/
structure Composing (sent : List UInt8) (s : Session) : Prop where
  exchange : s.exchange.Composing sent
  held : ∀ a ∈ s.held, a.IsRead

/-- The call goes on composing. -/
abbrev KeepsComposing (sent : List UInt8) {α : Type} (x : Action α) : Prop :=
  Keeps (fun s s' => s.Composing sent → s'.Composing sent) x

variable {sent : List UInt8}

theorem keepsComposing_answer {α : Type} {x : Action α} (hx : KeepsComposing sent x)
    {answer : α → Answer} : KeepsComposing sent (do return answer (← x)) :=
  hx.bind (fun h h' => h' ∘ h) fun _ => keeps_pure (fun _ => id) _

theorem keepsComposing_onExchange {α : Type} {x : Exchange.Action α}
    (hx : Exchange.KeepsComposing sent x) : KeepsComposing sent (onExchange x) := by
  intro s h
  have hs := hx s.exchange h.exchange
  rw [onExchange]
  cases hr : x s.exchange with
  | ok a e =>
    rw [hr] at hs
    exact ⟨hs, h.held⟩
  | error fault e =>
    rw [hr] at hs
    exact ⟨hs, h.held⟩

theorem keepsComposing_onQuery {α : Type} {q : Exchange.Query α}
    (hq : ∀ e : Exchange, e.Composing sent → (q e).2.Composing sent) :
    KeepsComposing sent (onQuery q) :=
  fun s h => ⟨hq s.exchange h.exchange, h.held⟩

theorem keepsComposing_build {g : Group} {change : Queue → Except Fault Queue}
    (hb : Queue.Builds g change) : KeepsComposing sent (build change) :=
  keepsComposing_answer (keepsComposing_onExchange
    (Exchange.keepsComposing_queueing (Exchange.sendable_of_builds hb)))

-- What a claim hands out was part of the request.
theorem keepsComposing_hold {claim : Exchange.Query (Option Attribute)}
    (hc : ∀ e : Exchange, e.Composing sent → (claim e).2.Composing sent)
    (hfound : ∀ e : Exchange, ∀ a ∈ (claim e).1, a ∈ e.request) :
    KeepsComposing sent (hold claim) := by
  intro s h
  refine ⟨hc s.exchange h.exchange, fun a ha => ?_⟩
  rcases List.mem_append.mp ha with ha | ha
  · exact h.held a ha
  · exact h.exchange.request a (hfound s.exchange a (Option.mem_toList.mp ha))

theorem isRead_of_attribute? {s : Session} (h : s.Composing sent) {handle : Handle}
    (hh : handle.IsRead) {a : Attribute} (ha : s.attribute? handle = some a) : a.IsRead := by
  cases handle with
  | held position => exact h.held a (List.mem_of_getElem? ha)
  | made b =>
    cases ha
    exact hh

theorem Composing.release {s : Session} (h : s.Composing sent) : s.release.Composing sent := by
  rw [Session.release]
  split
  · exact h
  · exact ⟨⟨h.exchange.request, h.exchange.queue, h.exchange.unsent⟩, h.held⟩

/-- Every call goes on composing, whether it fails or not. -/
theorem keepsComposing_perform {call : Call} (hcall : call.Composes) :
    KeepsComposing sent (perform call) := by
  have hparses : ∀ {x : Exchange.Action Unit}, Keeps Exchange.Parses x →
      KeepsComposing sent (do onExchange x; return Answer.done) := by
    intro x hx
    exact keepsComposing_answer (keepsComposing_onExchange fun e h => h.of_parses (hx e))
  have hvalue : ∀ {α : Type} (use : Value → Option α) (g : Group) (t : ValueTag) (n : String),
      KeepsComposing sent (onQuery (Exchange.claimValue use g t n)) := by
    intro α use g t n
    exact keepsComposing_onQuery fun e h => h.of_takes (Exchange.claimValue_takes g t n e use).2
  cases call with
  | parse => exact hparses Exchange.keeps_parse
  | parseHeader => exact hparses Exchange.keeps_parseHeader
  | parseBody => exact hparses Exchange.keeps_parseBody
  | header | request | queue | trace | info | find => exact fun s h => h
  | claim g t n =>
    apply keepsComposing_hold
    · exact fun e h => h.of_takes (Exchange.claim_takes g t n e).2
    · intro e a ha
      rw [(Exchange.claim_takes g t n e).1] at ha
      exact List.mem_of_find?_eq_some ha
  | claimSingle g t n =>
    apply keepsComposing_hold
    · exact fun e h => h.of_takes (Exchange.claimSingle_takes g t n e).2
    · intro e a ha
      rw [(Exchange.claimSingle_takes g t n e).1] at ha
      exact List.mem_of_find?_eq_some (Option.mem_filter_iff.mp ha).1
  | claimString g t n => exact keepsComposing_answer (hvalue Value.string? g t n)
  | claimUri g n =>
    refine keepsComposing_answer (keepsComposing_onQuery fun e h => ?_)
    exact h.of_takes (Exchange.claimUri_takes g n e).2
  | claimPositive g n => exact keepsComposing_answer (hvalue Exchange.positive? g .integer n)
  | claimEnum g n => exact keepsComposing_answer (hvalue Value.integer? g .enumeration n)
  | claimBoolean g n default =>
    refine keepsComposing_answer (keepsComposing_onQuery fun e h => ?_)
    exact h.of_takes (Exchange.claimBoolean_takes g n e default).2
  | claimKeyword g n allowed =>
    exact keepsComposing_answer (hvalue (Exchange.allowed? allowed) g .keyword n)
  | claimIdentity authenticated =>
    refine keepsComposing_answer (keepsComposing_onQuery fun e h => ?_)
    exact h.of_takes (Exchange.claimIdentity_takes e authenticated)
  | demote handle =>
    intro s h
    rw [perform, get_bind]
    cases ha : s.attribute? handle with
    | none => exact h
    | some a =>
      have hread := isRead_of_attribute? h hcall ha
      have hqueue := h.exchange.queue.insert hread.sendable.unsupported
      exact ⟨⟨h.exchange.request, hqueue, h.exchange.unsent⟩, h.held⟩
  | addCopy g handle =>
    intro s h
    rw [perform, get_bind]
    cases ha : s.attribute? handle with
    | none => exact h
    | some a =>
      have hread := isRead_of_attribute? h hcall ha
      exact keepsComposing_build (Queue.builds_addCopy hread.sendable) s h
  | echo => exact keepsComposing_answer (keepsComposing_onExchange Exchange.keepsComposing_echo)
  | addInteger g t n v => exact keepsComposing_build (Queue.builds_addInteger hcall v)
  | addIntegers g t n vs => exact keepsComposing_build (Queue.builds_addIntegers hcall vs)
  | addString g t n v => exact keepsComposing_build (Queue.builds_addString hcall v)
  | addStrings g t n vs => exact keepsComposing_build (Queue.builds_addStrings hcall vs)
  | addBoolean g t n v => exact keepsComposing_build (Queue.builds_addBoolean hcall v)
  | addOutOfBand g t n => exact keepsComposing_build (Queue.builds_addOutOfBand hcall)
  | addTemplate g t n p v => exact keepsComposing_build (Queue.builds_addTemplate hcall p v)
  | addTemplates g t n p vs => exact keepsComposing_build (Queue.builds_addTemplates hcall p vs)
  | addEnd g =>
    refine keepsComposing_answer (keepsComposing_onExchange ?_)
    exact Exchange.keepsComposing_queueing fun hq h => hq.insertEnd h
  | addStandard =>
    refine keepsComposing_answer (keepsComposing_onExchange ?_)
    refine Exchange.keepsComposing_queueing fun hq h => ?_
    obtain ⟨a, b, ⟨-, ha⟩, ⟨-, hb⟩, rfl⟩ := Queue.addStandard_ok h
    exact (hq.insert ha).insert hb
  | setStatus | rejectOperation | setRemoteUser | setRemoteAddr | setPathInfo | replyFromFile =>
    exact fun s h => ⟨⟨h.exchange.request, h.exchange.queue, h.exchange.unsent⟩, h.held⟩
  | sendReply header =>
    exact keepsComposing_answer
      (keepsComposing_onExchange (Exchange.keepsComposing_sendReply header))
  | forwardRequest sink => exact fun s h => ⟨h.exchange.forwardRequest sink, h.held⟩
  | readDocument sink =>
    exact fun s h => ⟨h.exchange.of_reads (Channel.reads_copyRest sink s.exchange.channel), h.held⟩
  | classify caps =>
    intro s h
    have hs : ({ s with exchange := (WellKnown.classify caps s.exchange).2 } : Session).Composing sent :=
      ⟨h.exchange.classify caps, h.held⟩
    exact ⟨hs.release.exchange, hs.release.held⟩
  | isRequested name =>
    intro s h
    have hs : (Session.isRequested name s).2.Composing sent := by
      rw [Session.isRequested]
      split
      · exact h
      · exact ⟨h.exchange, h.held⟩
    exact hs
  | release => exact fun s h => h.release

/-! ## Runs -/

theorem Composing.play {calls : List Call} (hcalls : ∀ call ∈ calls, call.Composes) {s : Session}
    (h : s.Composing sent) : (s.play calls).2.Composing sent := by
  induction calls generalizing s with
  | nil => exact h
  | cons call calls ih =>
    have hstep : (s.step call).2.Composing sent := by
      rw [step_eq]
      exact keepsComposing_perform (hcalls call List.mem_cons_self) s h
    exact ih (fun call' hc => hcalls call' (List.mem_cons_of_mem call hc)) hstep

theorem composing_opened (config : Config) (source : Source) (sink : Sink) (declared : Option Nat)
    (readDomain : Uri.DomainReader) :
    ({ exchange := .opened config source sink declared readDomain } : Session).Composing sink.bytes where
  exchange := ⟨nofun, Queue.sendable_empty, fun _ => List.append_nil _⟩
  held := nofun

/-- A reply that was composed by any calls and sent with success is read back by any fresh exchange,
whatever its root, header and status: the version is that of a reply, the operation is the status, and the
attributes are the settled ones of the swept queue, group by group in the order of a reply. -/
theorem parse_sendReply (config : Config) (source : Source) {sink : Sink} (hsink : sink.bytes = [])
    (declared : Option Nat) {calls : List Call} (hcalls : ∀ call ∈ calls, call.Composes)
    (root : String) (header : Header) (status : Status) {e e' : Exchange}
    (he : e = { (play calls { exchange := .opened config source sink declared }).2.exchange with
      root, header, status })
    (hfile : e.substitute = none) (hsent : e.sendReply false = .ok () e')
    (config' : Config) {source' : Source} (hsource : source'.Steady) (sink' : Sink)
    (hbytes : source'.rest = e'.channel.sink.bytes) {declared' : Option Nat}
    (hdeclared : ∀ n, declared' = some n → source'.rest.length ≤ n) :
    ∃ r, Exchange.parse (.opened config' source' sink' declared') = .ok () r ∧
      r.header.major = header.replyVersion.1 ∧ r.header.minor = header.replyVersion.2 ∧
      r.header.operation = status ∧ r.header.requestId = header.requestId ∧
      r.request.map Attribute.unplaced =
        replyOrder.flatMap fun g => (e.sweep.queue.attributes g).map (·.settled root) := by
  have hplayed := (composing_opened config source sink declared Uri.asciiDomain).play hcalls
  have hcomposing : e.Composing sink.bytes := by
    rw [he]
    exact ⟨hplayed.exchange.request, hplayed.exchange.queue, hplayed.exchange.unsent⟩
  have hroot : e.root = root ∧ e.header = header ∧ e.status = status := by
    rw [he]
    exact ⟨rfl, rfl, rfl⟩
  obtain ⟨rfl, rfl, rfl⟩ := hroot
  obtain ⟨hreplied, hfault, c, rfl, hwritten⟩ := Exchange.sendReply_ok hfile hsent
  have hrest : source'.rest = (encodeReply e.root e.header e.status e.sweep.queue).bytes := by
    rw [hbytes]
    refine hwritten.trans ?_
    rw [hcomposing.unsent hreplied, hsink]
    rfl
  obtain ⟨r, hparse, hheader, hrequest⟩ := Exchange.parse_encodeReply hcomposing.sweep.queue hfault
    config' hsource sink' hrest hdeclared
  refine ⟨r, hparse, ?_, ?_, ?_, ?_, hrequest⟩ <;> rw [hheader] <;> rfl

/-- Calls that answer an inquiry: what it asked about is copied and refused, behind a URI that is made from
a template, and the markers leave one printer without attributes. -/
def inquiryCalls : List Call :=
  [.parse, .claim .operation .keyword "a", .addStandard,
   .addTemplate .printer .uri "u" "/p/\x7b\x7d" (.integer 7), .addEnd .printer, .addEnd .printer,
   .addCopy .printer (.held 0), .demote (.held 0), .addIntegers .job .integer "n" [1, -1]]

/-- An output that is interrupted. -/
def inquirySink : Sink :=
  { script := [.upTo 3, .interrupted] }

/-- An exchange that is ready to answer. -/
def inquiryReply : Exchange :=
  { (play inquiryCalls { exchange := .opened {} Exchange.inquirySource inquirySink none }).2.exchange with
    root := "ipp:", header := { major := 2, requestId := 9 }, status := Status.notFound }

theorem parse_inquiryReply :
    ∃ e r, inquiryReply.sendReply false = .ok () e ∧
      Exchange.parse (.opened {} { rest := e.channel.sink.bytes, script := [.upTo 1] } {} none) =
        .ok () r ∧
      r.header.operation = Status.notFound ∧
      r.request.map Attribute.unplaced =
        [{ name := "attributes-charset", group := .operation, tag := .charset
           values := [.string "utf-8"] },
         { name := "attributes-natural-language", group := .operation, tag := .naturalLanguage
           values := [.string "en"] },
         { name := "u", group := .printer, tag := .uri, values := [.string "ipp:/p/7"] },
         { name := "a", group := .printer, tag := .keyword
           values := [.string "b", .string "c", .tagged .integer [0, 1]] },
         { name := "n", group := .job, tag := .integer, values := [.integer 1, .integer (-1)] },
         { name := "a", group := .unsupported, tag := .keyword
           values := [.string "b", .string "c", .tagged .integer [0, 1]] }] := by
  have hcalls : ∀ call ∈ inquiryCalls, call.Composes := by
    simp [inquiryCalls, Call.Composes, Handle.IsRead]
  have hsink : inquirySink.bytes = [] := rfl
  have hfile : inquiryReply.substitute = none := by decide +kernel
  have hok : succeeded (inquiryReply.sendReply false) = true := by decide +kernel
  obtain ⟨e, hsent⟩ : ∃ e, inquiryReply.sendReply false = .ok () e := ⟨_, eq_ok_of_succeeded hok⟩
  have hsteady : ({ rest := e.channel.sink.bytes, script := [.upTo 1] } : Source).Steady := by
    intro event hevent
    cases List.mem_singleton.mp hevent
    rfl
  have hdeclared : ∀ n, (none : Option Nat) = some n → e.channel.sink.bytes.length ≤ n := nofun
  obtain ⟨r, hparse, -, -, hoperation, -, hrequest⟩ := parse_sendReply {} Exchange.inquirySource
    hsink none hcalls "ipp:" { major := 2, requestId := 9 } Status.notFound rfl hfile hsent {}
    hsteady {} rfl hdeclared
  refine ⟨e, r, hsent, hparse, hoperation, hrequest.trans ?_⟩
  decide +kernel

end Session
end Ipp
