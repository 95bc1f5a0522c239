import Ipp.Proofs.Exchange.Alike
import Ipp.Proofs.Session.Drafting
import Ipp.Proofs.Session.Guards

/-!
# Where a reply stops

A reply is put on the channel as it is encoded, group by group, and no part of it is taken back. Without
operation attributes nothing is put. Where an attribute has no encoding the reply stops in front of it: what
was put before reaches the output, some of it perhaps only when the exchange is over, and nothing else does
(`first_reply_output`).
-/

namespace Ipp

open Calls

/-! ## Encodings that stop -/

/-- The groups of a reply as far as they can be encoded. -/
def encodeGroups (root : String) (q : Queue) : Encoding :=
  .concat (replyOrder.map fun g => encodeGroup root g (q.list g))

section

variable {root : String} {h : Header} {status : Status} {q : Queue}

theorem encodeReply_eq : encodeReply root h status q =
    .ofBytes (encodeReplyHeader h status) ++ encodeGroups root q ++ .ofBytes [endOfAttributes] :=
  rfl

-- The end tag is not put then.
theorem encodeReply_of_stopped {fault : Fault} (hfault : (encodeGroups root q).fault = some fault) :
    encodeReply root h status q =
      { bytes := encodeReplyHeader h status ++ (encodeGroups root q).bytes, fault := some fault } := by
  have hgroups : (Encoding.ofBytes (encodeReplyHeader h status) ++ encodeGroups root q).fault =
      some fault := by
    rw [Encoding.append_of_none rfl]
    exact hfault
  rw [encodeReply_eq, Encoding.append_of_fault hgroups, Encoding.append_of_none rfl, hfault]
  rfl

theorem encodeReply_of_whole (hfault : (encodeGroups root q).fault = none) :
    encodeReply root h status q =
      .ofBytes (encodeReplyHeader h status ++ (encodeGroups root q).bytes ++ [endOfAttributes]) := by
  have hgroups : (Encoding.ofBytes (encodeReplyHeader h status) ++ encodeGroups root q).fault = none := by
    rw [Encoding.append_of_none rfl]
    exact hfault
  rw [encodeReply_eq, Encoding.append_of_none hgroups, Encoding.append_of_none rfl]
  rfl

end

-- Only attributes stop a reply here.
theorem ne_noOperationAttributes_of_fault {root : String} {q : Queue} {fault : Fault}
    (hfault : (encodeGroups root q).fault = some fault) : fault ≠ .noOperationAttributes := by
  have hreply : (encodeReply root {} Status.ok q).fault = some fault := by
    rw [encodeReply_of_stopped hfault]
  obtain ⟨g, a, -, hstopped⟩ := exists_of_fault_encodeReply hreply
  rcases a.fault_encode hstopped with rfl | rfl | rfl <;> exact nofun

namespace Exchange

/-- What stands in front of the groups of a reply that is sent now. -/
def replyHead (header : Bool) (e : Exchange) : List UInt8 :=
  replyPreamble header ++ encodeReplyHeader e.header e.status

/-- The groups of a reply that is sent now. -/
def replyGroups (e : Exchange) : Encoding :=
  encodeGroups e.root e.sweep.queue

variable {header : Bool}

theorem encoding_of_whole (e : Exchange) (hfault : e.replyGroups.fault = none) :
    Encoding.ofBytes (replyPreamble header) ++ encodeReply e.root e.header e.status e.sweep.queue =
      .ofBytes (e.replyHead header ++ e.replyGroups.bytes ++ [endOfAttributes]) := by
  rw [encodeReply_of_whole hfault, replyHead, replyGroups]
  simp only [Encoding.append_of_none, Encoding.ofBytes, List.append_assoc]

theorem encoding_of_stopped (e : Exchange) {fault : Fault} (hfault : e.replyGroups.fault = some fault) :
    Encoding.ofBytes (replyPreamble header) ++ encodeReply e.root e.header e.status e.sweep.queue =
      { bytes := e.replyHead header ++ e.replyGroups.bytes, fault := some fault } := by
  rw [encodeReply_of_stopped hfault, replyHead, replyGroups]
  simp only [Encoding.append_of_none, Encoding.ofBytes, List.append_assoc]

-- What was encoded before the fault is put on the channel.
theorem putEncoding_stops {c : Channel} (h : c.Open) {encoding : Encoding} {fault : Fault}
    (hfault : encoding.fault = some fault) :
    ∃ d, putEncoding encoding c = .error fault d ∧ c.Sends d ∧
      d.produced = c.produced ++ encoding.bytes := by
  obtain ⟨d, hput⟩ := h.putBytes encoding.bytes
  obtain ⟨hsends, hproduced⟩ := Channel.putBytes_ok hput
  refine ⟨d, ?_, hsends, hproduced⟩
  unfold putEncoding
  rw [bind_of_ok hput, hfault]
  rfl

/-! ## Before the reply -/

/-- Nothing was put on the channel, and nothing stands in the way of a reply. -/
structure Fresh (sink : Sink) (e : Exchange) : Prop where
  channel : e.channel.Open
  sink : e.channel.sink = sink
  pending : e.channel.pending = #[]
  unsent : e.replied = false
  fileless : e.substitute = none
  unclosed : e.closed = false

variable {sink : Sink} {e e' : Exchange}

theorem fresh_opened (config : Config) (source : Source) (hsteady : sink.Steady) (declared : Option Nat) :
    (opened config source sink declared).Fresh sink :=
  ⟨Channel.open_opened source hsteady declared _, rfl, rfl, rfl, rfl, rfl⟩

theorem Fresh.of_reads (h : e.Fresh sink) (hr : e.channel.Reads e'.channel)
    (hreplied : e'.replied = e.replied) (hfile : e'.substitute = e.substitute)
    (hclosed : e'.closed = e.closed) : e'.Fresh sink where
  channel := h.channel.of_reads hr
  sink := hr.sink.trans h.sink
  pending := hr.pending.trans h.pending
  unsent := hreplied.trans h.unsent
  fileless := hfile.trans h.fileless
  unclosed := hclosed.trans h.unclosed

theorem Fresh.sweep (h : e.Fresh sink) : e.sweep.Fresh sink := by
  rw [sweep_eq]
  exact h.of_reads (.refl _) rfl rfl rfl

theorem Fresh.produced (h : e.Fresh sink) : e.channel.produced = sink.bytes := by
  rw [Channel.produced, h.sink, h.pending]
  exact List.append_nil _

/-! ## Behind the reply -/

/-- The output has accepted `sent`, and `pending` is to be sent in the end. No reply is put any more. -/
structure Settled (sent pending : List UInt8) (e : Exchange) : Prop where
  channel : e.channel.Open
  sent : e.channel.sink.bytes = sent
  pending : e.channel.pending.toList = pending
  replied : e.replied = true
  unclosed : e.closed = false

variable {sent pending : List UInt8}

theorem Settled.of_reads (h : e.Settled sent pending) (hr : e.channel.Reads e'.channel)
    (hreplied : e'.replied = e.replied) (hclosed : e'.closed = e.closed) : e'.Settled sent pending where
  channel := h.channel.of_reads hr
  sent := by
    rw [hr.sink]
    exact h.sent
  pending := by
    rw [hr.pending]
    exact h.pending
  replied := hreplied.trans h.replied
  unclosed := hclosed.trans h.unclosed

theorem Settled.of_moves (h : e.Settled sent pending) {call : Call} (hm : Session.Moves call e e') :
    e'.Settled sent pending := by
  cases hm with
  | parses _ hparses => exact h.of_reads hparses.reads (by rw [hparses.rest]) (by rw [hparses.rest])
  | works hworks => exact h.of_reads hworks.reads hworks.replied hworks.closed
  | replies header hreplied =>
    rw [hreplied, final_sendReply_of_replied h.replied]
    exact h

/-- In the end what is pending is sent, unless the rest of the request cannot be dropped. -/
theorem Settled.close (h : e.Settled sent pending) :
    match Exchange.close e with
    | .ok _ e' => e'.channel.sink.bytes = sent ++ pending
    | .error _ e' => e'.channel.sink.bytes = sent := by
  unfold Exchange.close
  rw [if_neg (by rw [h.unclosed]; decide), onChannel]
  dsimp only
  rcases e.channel.finish_cases with ⟨fault, d, hfinish, hleaves⟩ | ⟨d, hfinish, hleaves⟩
  · rw [hfinish]
    show d.sink.bytes = sent
    rw [hleaves.sink]
    exact h.sent
  · obtain ⟨c, hflush⟩ := (h.channel.of_leavesOutput hleaves).flush
    rw [hfinish, hflush]
    show c.sink.bytes = sent ++ pending
    rw [(Channel.flush_ok hflush).2.1, Channel.produced, hleaves.sink, hleaves.pending, h.sent,
      h.pending]

-- What can be encoded of a reply that stops is put.
theorem Fresh.putReply_stops (h : e.Fresh sink) {fault : Fault} (hfault : e.replyGroups.fault = some fault)
    (header : Bool) :
    ∃ c, putEncoding (.ofBytes (replyPreamble header) ++
        encodeReply e.root e.header e.status e.sweep.queue) e.sweep.channel = .error fault c ∧
      e.sweep.channel.Sends c ∧
      c.produced = sink.bytes ++ (e.replyHead header ++ e.replyGroups.bytes) := by
  let encoding : Encoding := { bytes := e.replyHead header ++ e.replyGroups.bytes, fault := some fault }
  have hstops : encoding.fault = some fault := rfl
  obtain ⟨c, hput, hsends, hproduced⟩ := putEncoding_stops h.sweep.channel hstops
  refine ⟨c, ?_, hsends, ?_⟩
  · rw [e.encoding_of_stopped hfault]
    exact hput
  · rw [← h.sweep.produced]
    exact hproduced

/-- A first reply is put as a whole, or as far as it can be encoded. -/
theorem Fresh.sendReply (h : e.Fresh sink) (header : Bool) :
    match Exchange.sendReply header e with
    | .ok _ e' => e.replyGroups.fault = none ∧
        e'.Settled (sink.bytes ++ (e.replyHead header ++ e.replyGroups.bytes ++ [endOfAttributes])) []
    | .error fault e' =>
      fault = .noOperationAttributes ∧ e'.Settled sink.bytes [] ∨
        fault ≠ .noOperationAttributes ∧ e.replyGroups.fault = some fault ∧ ∃ sent pending,
          e'.Settled sent pending ∧
          sent ++ pending = sink.bytes ++ (e.replyHead header ++ e.replyGroups.bytes) := by
  have hswept := h.sweep
  rw [sendReply_of_queue h.unsent h.fileless]
  by_cases hempty : e.sweep.queue.operation.isEmpty = true
  · rw [if_pos hempty]
    exact .inl ⟨rfl, hswept.channel, congrArg Sink.bytes hswept.sink,
      congrArg Array.toList hswept.pending, rfl, hswept.unclosed⟩
  rw [if_neg hempty]
  cases hfault : e.replyGroups.fault with
  | none =>
    obtain ⟨c, -, hput⟩ := putEncoding_of_open hswept.channel
      (.ofBytes (e.replyHead header ++ e.replyGroups.bytes ++ [endOfAttributes]))
    obtain ⟨-, hsends, hbytes, hpending⟩ := putEncoding_ok hput
    rw [e.encoding_of_whole hfault, onChannel, hput]
    refine ⟨rfl, hsends.isOpen hswept.channel, ?_, congrArg Array.toList hpending, rfl, hswept.unclosed⟩
    rw [← hswept.produced]
    exact hbytes
  | some fault =>
    obtain ⟨c, hput, hsends, hproduced⟩ := h.putReply_stops hfault header
    rw [onChannel, hput]
    refine .inr ⟨ne_noOperationAttributes_of_fault hfault, rfl, c.sink.bytes, c.pending.toList, ?_, hproduced⟩
    exact ⟨hsends.isOpen hswept.channel, rfl, rfl, rfl, hswept.unclosed⟩

/-- Where the rest of the request can be dropped, what a reply that stops has put is sent in the end. -/
theorem Fresh.close_of_stopped (h : e.Fresh sink) (hfit : e.channel.Fit)
    (hoperation : e.sweep.queue.operation ≠ []) {fault : Fault} (hfault : e.replyGroups.fault = some fault)
    (header : Bool) :
    ∃ e', Exchange.sendReply header e = .error fault e' ∧
      (final (close e')).channel.sink.bytes = sink.bytes ++ (e.replyHead header ++ e.replyGroups.bytes) := by
  obtain ⟨c, hput, hsends, hproduced⟩ := h.putReply_stops hfault header
  have hclosed := h.sweep.unclosed
  have hempty : ¬e.sweep.queue.operation.isEmpty = true := fun hnil =>
    hoperation (List.isEmpty_iff.mp hnil)
  have hswept : e.sweep.channel.Fit := by
    rw [sweep_eq]
    exact hfit
  let stopped : Exchange := { e.sweep with channel := c, replied := true, substitute := none }
  refine ⟨stopped, ?_, ?_⟩
  · rw [sendReply_of_queue h.unsent h.fileless, if_neg hempty, onChannel, hput]
  · obtain ⟨d, hclose, hfinished⟩ := stopped.close_through (hswept.of_sends hsends)
    have hthrough : stopped.through c = stopped := by
      rw [through, ← hclosed]
    rw [hthrough] at hclose
    rw [hclose, ← hproduced]
    exact hfinished.bytes

end Exchange

/-! ## Sessions -/

namespace Session

/-- Whatever is called from now on, the output stays at `sent`; when the session is over `pending` is behind
that, unless the end has failed. -/
structure Leaves (sent pending : List UInt8) (s : Session) : Prop where
  during : ∀ calls, (s.play calls).2.exchange.channel.sink.bytes = sent
  finished : ∀ calls, match (s.play calls).2.finish.1.answer with
    | .ok _ => (s.play calls).2.finish.2.exchange.channel.sink.bytes = sent ++ pending
    | .error _ => (s.play calls).2.finish.2.exchange.channel.sink.bytes = sent
  -- It makes no difference how the session is ended.
  discarded : ∀ calls, (s.play calls).2.discard.exchange.channel = (s.play calls).2.finish.2.exchange.channel

theorem leaves_of_settled {sent pending : List UInt8} {s : Session} (h : s.exchange.Settled sent pending) :
    s.Leaves sent pending := by
  have hplayed : ∀ calls, (s.play calls).2.exchange.Settled sent pending := fun calls =>
    play_keeps (fun _ _ _ _ hm h => h.of_moves hm) h
  refine ⟨fun calls => (hplayed calls).sent, fun calls => ?_, fun calls => ?_⟩
  · have hclose := (hplayed calls).close
    generalize (s.play calls).2 = t at hclose
    unfold finish onExchange
    cases hc : t.exchange.close with
    | ok a e =>
      rw [hc] at hclose
      exact hclose
    | error fault e =>
      rw [hc] at hclose
      exact hclose
  · rw [exchange_finish]
    exact Exchange.channel_discard _

theorem fresh_play {sink : Sink} {calls : List Call} (hcalls : ∀ call ∈ calls, call.replies = false)
    {s : Session} (h : s.exchange.Fresh sink) : (s.play calls).2.exchange.Fresh sink := by
  refine play_induction (P := fun e => e.Fresh sink) (fun call hc t ht => ?_) h
  have hfile := substitute_perform (hcalls call hc) t
  rcases perform_cases call t with ⟨-, hparses⟩ | hworks | ⟨header, rfl, -⟩
  · exact ht.of_reads hparses.reads (by rw [hparses.rest]) hfile (by rw [hparses.rest])
  · exact ht.of_reads hworks.reads hworks.replied hfile hworks.closed
  · cases hcalls _ hc

end Session

/-- On an output that does not fail, whatever was called before: without operation attributes no byte of the
reply ever reaches the output; where another fault stops the reply, what was encoded in front of it does,
and nothing else, be it at once or in the end; and where nothing stops it, the whole of it with its end tag
has reached the output, and nothing comes behind it. -/
theorem first_reply_output (config : Config) (source : Source) {sink : Sink} (hsteady : sink.Steady)
    (declared : Option Nat) {calls : List Call} (hcalls : ∀ call ∈ calls, call.replies = false)
    (header : Bool) {s s' : Session} {o : Session.Observation}
    (hs : s = (Session.play calls { exchange := .opened config source sink declared }).2)
    (hsent : s.step (.sendReply header) = (o, s')) :
    match o.answer with
    | .ok _ => s.exchange.replyGroups.fault = none ∧
        s'.Leaves (sink.bytes ++
          (s.exchange.replyHead header ++ s.exchange.replyGroups.bytes ++ [endOfAttributes])) []
    | .error fault =>
      fault = .noOperationAttributes ∧ s'.Leaves sink.bytes [] ∨
        fault ≠ .noOperationAttributes ∧ s.exchange.replyGroups.fault = some fault ∧ ∃ sent pending,
          s'.Leaves sent pending ∧
          sent ++ pending = sink.bytes ++ (s.exchange.replyHead header ++ s.exchange.replyGroups.bytes) := by
  have hfresh : s.exchange.Fresh sink := by
    rw [hs]
    exact Session.fresh_play hcalls (Exchange.fresh_opened config source hsteady declared)
  have hreply := hfresh.sendReply header
  rw [Session.step_sendReply] at hsent
  cases hr : s.exchange.sendReply header with
  | ok a e =>
    rw [hr] at hreply hsent
    cases hsent
    exact ⟨hreply.1, Session.leaves_of_settled hreply.2⟩
  | error fault e =>
    rw [hr] at hreply hsent
    cases hsent
    rcases hreply with ⟨hfault, hsettled⟩ | ⟨hfault, hgroups, sent, pending, hsettled, hbytes⟩
    · exact .inl ⟨hfault, Session.leaves_of_settled hsettled⟩
    · exact .inr ⟨hfault, hgroups, sent, pending, Session.leaves_of_settled hsettled, hbytes⟩

-- The fault that is seen is that of the reply.
theorem Session.answer_sendReply {s : Session} {header : Bool} {fault : Fault}
    (h : (s.step (.sendReply header)).1.fault? = some fault) :
    (s.step (.sendReply header)).1.answer = .error fault := by
  rw [step_sendReply] at h ⊢
  cases hr : s.exchange.sendReply header with
  | ok a e =>
    rw [hr] at h
    cases h
  | error fault' e =>
    rw [hr] at h
    cases h
    rfl

/-- A keyword that is to be an integer. -/
def muddled : Attribute :=
  { name := "x", group := .job, tag := .keyword, values := [.integer 1] }

/-- A session in which a copy of it is queued. -/
def muddledSession : Session :=
  (Session.play [.addStandard, .addCopy .job (.made muddled)]
    { exchange := .opened {} { rest := [] } {} none }).2

theorem muddledSession_answer :
    (muddledSession.step (.sendReply false)).1.answer = .error (.unhandledValueTag "x" .keyword) :=
  Session.answer_sendReply (by decide +kernel)

-- In the end all in front of the keyword is sent.
theorem muddledSession_stops :
    muddledSession.exchange.replyGroups.fault = some (.unhandledValueTag "x" .keyword) ∧
    (muddledSession.step (.sendReply false)).2.exchange.channel.sink.bytes = [] ∧
    (muddledSession.step (.sendReply false)).2.finish.2.exchange.channel.sink.bytes =
      muddledSession.exchange.replyHead false ++ muddledSession.exchange.replyGroups.bytes := by
  have hsink : ({} : Sink).Steady := by decide
  have hcalls : ∀ call ∈ [Call.addStandard, .addCopy .job (.made muddled)], call.replies = false := by
    decide
  have hsent : (muddledSession.step (.sendReply false)).2.exchange.channel.sink.bytes = [] := by
    decide +kernel
  have hended : (muddledSession.step (.sendReply false)).2.finish.1.fault? = none := by decide +kernel
  have hanswer := muddledSession_answer
  generalize hstep : muddledSession.step (.sendReply false) = r at hsent hended hanswer ⊢
  have hreply := first_reply_output {} { rest := [] } hsink none hcalls false (s := muddledSession)
    (by rw [muddledSession]) hstep
  rw [hanswer] at hreply
  rcases hreply with ⟨hfault, -⟩ | ⟨-, hgroups, sent, pending, hleaves, hbytes⟩
  · cases hfault
  refine ⟨hgroups, hsent, ?_⟩
  have hfinished : match r.2.finish.1.answer with
    | .ok _ => r.2.finish.2.exchange.channel.sink.bytes = sent ++ pending
    | .error _ => r.2.finish.2.exchange.channel.sink.bytes = sent := hleaves.finished []
  unfold Session.Observation.fault? at hended
  cases ha : r.2.finish.1.answer with
  | ok answer =>
    rw [ha] at hfinished
    rw [hfinished, hbytes]
    rfl
  | error fault =>
    rw [ha] at hended
    cases hended

/-- A text that is one byte too long for the wire. -/
def overlong : String :=
  String.ofList (List.replicate (Wire.longest + 1) 'a')

/-- An attribute with that text. -/
def overlongText : Attribute :=
  .ofText .text "x" overlong

theorem isTooLong_overlongText (root : String) : overlongText.IsTooLong root := by
  refine .inr ⟨.string overlong, List.mem_singleton_self _, ?_⟩
  show Wire.longest < (Text.utf8 ("" ++ overlong)).length
  rw [String.empty_append, overlong, Text.utf8_replicate, List.length_replicate]
  exact Nat.lt_succ_self _

theorem encodable_overlongText : overlongText.Encodable where
  values := List.cons_ne_nil _ _
  template := nofun
  suits _ v hv := by
    cases List.mem_singleton.mp hv
    rfl

/-- A session in which it is queued behind the standard attributes. -/
def overlongSession : Session :=
  (Session.play [.addStandard, .addString .operation .text "x" overlong]
    { exchange := .opened {} { rest := [] } {} none }).2

theorem overlongSession_stopped : ∃ fault, overlongSession.exchange.replyGroups.fault = some fault := by
  refine Option.ne_none_iff_exists'.mp fun hnone => ?_
  let e := overlongSession.exchange
  have hreply : (encodeReply e.root e.header e.status e.sweep.queue).fault = none := by
    rw [encodeReply_of_whole hnone]
    rfl
  have hgroup := (encodeReply_bytes hreply).1 .operation (mem_replyOrder _)
  have hqueued : .attribute overlongText ∈ e.sweep.queue.list .operation :=
    List.mem_append_right _ List.mem_cons_self
  have hencoded := fault_encode_of_encodeGroup hgroup hqueued
  rw [encodable_overlongText.fault_encode_iff.mpr ⟨isTooLong_overlongText _, rfl⟩] at hencoded
  cases hencoded

/-- Not every reply that fails leaves the output as it was. -/
theorem not_all_or_nothing :
    ¬∀ (config : Config) (source : Source) (sink : Sink) (declared : Option Nat) (calls : List Call)
      (header : Bool) (s : Session) (fault : Fault),
      sink.Steady → (∀ call ∈ calls, call.replies = false) →
      s = (Session.play calls { exchange := .opened config source sink declared }).2 →
      (s.step (.sendReply header)).1.answer = .error fault →
      (s.step (.sendReply header)).2.finish.2.exchange.channel.sink.bytes = sink.bytes := by
  intro h
  have hsource : ({ rest := [] } : Source).Steady := by decide
  have hsink : ({} : Sink).Steady := by decide
  have hdeclared : ∀ n ∈ (none : Option Nat), n ≤ 0 := by decide
  have hcalls : ∀ call ∈ [Call.addStandard, .addString .operation .text "x" overlong],
      call.replies = false :=
    List.forall_mem_cons.mpr ⟨rfl, List.forall_mem_singleton.mpr rfl⟩
  have hfresh : overlongSession.exchange.Fresh {} :=
    Session.fresh_play hcalls (Exchange.fresh_opened {} { rest := [] } hsink none)
  have hfit : overlongSession.exchange.channel.Fit :=
    Channel.fit_opened hsource hsink hdeclared _
  obtain ⟨fault, hfault⟩ := overlongSession_stopped
  obtain ⟨e, hsent, hclosed⟩ := hfresh.close_of_stopped hfit (List.cons_ne_nil _ _) hfault false
  have hstep := Session.step_sendReply false overlongSession
  rw [hsent] at hstep
  have hnothing := h {} { rest := [] } {} none _ false overlongSession fault hsink hcalls rfl
    (by rw [hstep]; rfl)
  -- The head of the reply is in the output all the same.
  rw [hstep, Session.exchange_finish, hclosed] at hnothing
  cases hnothing

end Ipp
