import Ipp.Call
import Ipp.Proofs.Exchange.Alike
import Ipp.Proofs.Session.Channels
import Mathlib.Data.List.Forall2

/-!
# Serving through different buffers

A handler that does not look behind the request cannot tell how the streams are cut into pieces, and
neither can the peer: whatever the buffer size and the scripts of steady streams, an exchange comes out
the same, in its answers, its reports, the bytes it sends and the number of bytes it takes. What the channel
reports of its own work tells the pieces apart; only the bytes that it finds left in the end do not depend on
them, where a length was declared (`serve_regardless_of_buffers`).
-/

namespace Ipp

open Calls

/-! ## Calls -/

/-- The call reads nothing of the request. -/
def Call.leavesInput : Call → Bool
  | .parse | .parseHeader | .parseBody | .forwardRequest _ | .readDocument _ => false
  | _ => true

/-- Both are the same call, but sinks for the document may take it in different pieces. -/
inductive Call.Matches : Call → Call → Prop
  | same {call : Call} (h : call.leavesInput = true) : Matches call call
  | document {sink sink' : Sink} (h : sink.Steady) (h' : sink'.Steady)
    (hbytes : sink.bytes = sink'.bytes) : Matches (.readDocument sink) (.readDocument sink')

namespace Session

/-- The same session about another exchange. -/
def through (s : Session) (e : Exchange) : Session :=
  { s with exchange := e }

/-- The same session about exchanges that are alike. -/
inductive Alike : Session → Session → Prop
  | through (s : Session) {e f : Exchange} (h : e.Alike f) : Alike (s.through e) (s.through f)

theorem Alike.exchange {s t : Session} (h : s.Alike t) : s.exchange.Alike t.exchange := by
  rcases h with ⟨s, hef⟩
  exact hef

theorem agree_answer {α : Type} {x : Action α} (h : Agree Alike x x) (answer : α → Answer) :
    Agree Alike (do return answer (← x)) (do return answer (← x)) :=
  h.bind fun _ => agree_pure _

theorem agree_onExchange {α : Type} {x : Exchange.Action α} (h : Agree Exchange.Alike x x) :
    Agree Alike (onExchange x) (onExchange x) := by
  rintro _ _ ⟨s, hef⟩
  have hend := h _ _ hef
  unfold onExchange
  dsimp only [through]
  generalize x _ = p at hend ⊢
  generalize x _ = q at hend ⊢
  cases hend with
  | ok h => exact .ok (.through s h)
  | error h => exact .error (.through s h)

theorem agree_onQuery {α : Type} {q : Exchange.Query α} (h : Exchange.Blind q) :
    Agree Alike (onQuery q) (onQuery q) := by
  rintro _ _ ⟨s, ⟨e, hcd⟩⟩
  unfold onQuery
  dsimp only [through]
  rw [h, h]
  exact .ok (.through s (.through (q e).2 hcd))

theorem agree_hold {claim : Exchange.Query (Option Attribute)} (h : Exchange.Blind claim) :
    Agree Alike (hold claim) (hold claim) := by
  apply (agree_onQuery h).bind
  intro found
  apply Agree.bind
  · apply agree_modify
    rintro _ _ ⟨s, hef⟩
    exact .through { s with held := s.held ++ found.toList } hef
  · exact fun _ => agree_pure _

theorem agree_update {u : Exchange → Exchange} (h : ∀ e c, u (e.through c) = (u e).through c) :
    Agree Alike (update u) (update u) := by
  rintro _ _ ⟨s, ⟨e, hcd⟩⟩
  unfold update
  dsimp only [through]
  rw [h, h]
  exact .ok (.through s (.through (u e) hcd))

theorem agree_look {view : Exchange → Answer} (h : ∀ e c, view (e.through c) = view e) :
    Agree Alike (look view) (look view) := by
  rintro _ _ ⟨s, ⟨e, hcd⟩⟩
  unfold look
  dsimp only [through]
  rw [h, h]
  exact .ok (.through s (.through e hcd))

theorem agree_build (change : Queue → Except Fault Queue) :
    Agree Alike (build change) (build change) :=
  agree_answer (agree_onExchange (Exchange.agree_queueing change)) _

theorem Alike.release {s t : Session} (h : s.Alike t) : s.release.Alike t.release := by
  rcases h with ⟨s, ⟨e, hcd⟩⟩
  unfold Session.release
  dsimp only [Session.through]
  cases s.wellKnown with
  | none => exact .through { s with wellKnown := none } (.through e hcd)
  | some w => exact .through { s with wellKnown := none } (.through (w.release e) hcd)

theorem Alike.filing {s t : Session} (h : s.Alike t) (w : Option WellKnown) :
    Alike { s with wellKnown := w } { t with wellKnown := w } := by
  rcases h with ⟨s, hef⟩
  exact .through { s with wellKnown := w } hef

theorem agree_classify (caps : Capabilities) :
    Agree Alike (modifyGet (classify caps) : Action WellKnown) (modifyGet (classify caps)) := by
  apply agree_modifyGet
  rintro _ _ ⟨s, ⟨e, hcd⟩⟩
  unfold classify
  dsimp only [through]
  rw [Exchange.blind_classify, Exchange.blind_classify]
  have hreleased := (Alike.through s (.through (WellKnown.classify caps e).2 hcd)).release
  exact ⟨rfl, hreleased.filing (WellKnown.classify caps e).1⟩

theorem agree_isRequested (name : String) :
    Agree Alike (modifyGet (isRequested name) : Action Bool) (modifyGet (isRequested name)) := by
  apply agree_modifyGet
  rintro _ _ ⟨s, hef⟩
  unfold isRequested
  dsimp only [through]
  cases s.wellKnown with
  | none => exact ⟨rfl, .through { s with wellKnown := none } hef⟩
  | some w => exact ⟨rfl, .through { s with wellKnown := (w.isRequested name).2 } hef⟩

theorem attribute?_through (s : Session) (e : Exchange) (handle : Handle) :
    (s.through e).attribute? handle = s.attribute? handle := by
  cases handle <;> rfl

-- The document is handed over alike.
theorem agree_readDocument {sink sink' : Sink} (h : sink.Steady) (h' : sink'.Steady)
    (hbytes : sink.bytes = sink'.bytes) :
    Agree Alike (perform (.readDocument sink)) (perform (.readDocument sink')) := by
  rintro _ _ ⟨s, ⟨e, hcd⟩⟩
  obtain ⟨houtcome, hsink, hchannel⟩ := hcd.copyRest h h' hbytes
  unfold perform deliver Exchange.readDocument Exchange.deliver
  dsimp only [through, Exchange.through]
  rw [houtcome, hsink]
  exact .ok (.through s (.through e hchannel))

/-- No call can tell the buffers apart. -/
theorem agree_perform {call call' : Call} (h : call.Matches call') :
    Agree Alike (perform call) (perform call') := by
  rcases h with hleaves | ⟨hs, hs', hbytes⟩
  · have hvalue : ∀ {α : Type} (use : Value → Option α) (g : Group) (t : ValueTag) (n : String),
        Agree Alike (onQuery (Exchange.claimValue use g t n))
          (onQuery (Exchange.claimValue use g t n)) :=
      fun use g t n => agree_onQuery (Exchange.blind_claimValue g t n use)
    cases call with
    | parse | parseHeader | parseBody | forwardRequest | readDocument => cases hleaves
    | header | request | queue | trace | info | find =>
      unfold perform
      apply agree_look
      exact fun _ _ => rfl
    | claim g t n => exact agree_hold (Exchange.blind_claim g t n)
    | claimSingle g t n => exact agree_hold (Exchange.blind_claimSingle g t n)
    | claimString g t n => exact agree_answer (hvalue Value.string? g t n) _
    | claimUri g n => exact agree_answer (agree_onQuery (Exchange.blind_claimUri g n)) _
    | claimPositive g n => exact agree_answer (hvalue Exchange.positive? g .integer n) _
    | claimEnum g n => exact agree_answer (hvalue Value.integer? g .enumeration n) _
    | claimBoolean g n default =>
      exact agree_answer (agree_onQuery (Exchange.blind_claimBoolean g n default)) _
    | claimKeyword g n allowed =>
      exact agree_answer (hvalue (Exchange.allowed? allowed) g .keyword n) _
    | claimIdentity authenticated =>
      exact agree_answer (agree_onQuery (Exchange.blind_claimIdentity authenticated)) _
    | demote handle =>
      apply agree_get_bind
      rintro _ _ ⟨s, -⟩
      rw [attribute?_through, attribute?_through]
      cases s.attribute? handle with
      | none => exact agree_pure _
      | some a => exact agree_update fun _ _ => rfl
    | addCopy g handle =>
      apply agree_get_bind
      rintro _ _ ⟨s, -⟩
      rw [attribute?_through, attribute?_through]
      cases s.attribute? handle with
      | none => exact agree_pure _
      | some a => exact agree_build (Queue.addCopy g a)
    | echo => exact agree_answer (agree_onExchange Exchange.agree_echo) _
    | addInteger | addIntegers | addString | addStrings | addBoolean | addOutOfBand | addTemplate
    | addTemplates | addEnd | addStandard => exact agree_build _
    | setStatus | rejectOperation | setRemoteUser | setRemoteAddr | setPathInfo | replyFromFile =>
      unfold perform
      apply agree_update
      exact fun _ _ => rfl
    | sendReply header => exact agree_answer (agree_onExchange (Exchange.agree_sendReply header)) _
    | classify caps => exact agree_answer (agree_classify caps) _
    | isRequested name => exact agree_answer (agree_isRequested name) _
    | release => exact (agree_modify fun _ _ h => h.release).bind fun _ => agree_pure _
  · exact agree_readDocument hs hs' hbytes

/-! ## Handlers -/

end Session

/-- Both handlers make the same calls, and go on after the same ones. -/
structure Session.Planned.Matches (p q : Planned) : Prop where
  call : p.call.Matches q.call
  goesOn : p.goesOn = q.goesOn

/-- What a handler sees of an observation. How much was taken and sent so far is seen by neither the
handler nor the peer. -/
def Session.Observation.seen (o : Observation) : Except Fault Answer × Option Counts :=
  (o.answer, o.counts)

namespace Session

theorem Alike.counts {s t : Session} (h : s.Alike t) : s.counts = t.counts := by
  rcases h with ⟨s, ⟨e, -⟩⟩
  rfl

theorem Alike.step {s t : Session} (h : s.Alike t) {call call' : Call} (hm : call.Matches call') :
    (s.step call).1.seen = (t.step call').1.seen ∧ (s.step call).2.Alike (t.step call').2 := by
  have hend := agree_perform hm s t h
  unfold Session.step
  generalize perform call s = p at hend ⊢
  generalize perform call' t = q at hend ⊢
  cases hend with
  | ok h => exact ⟨congrArg (Prod.mk _) (congrArg some h.counts), h⟩
  | error h => exact ⟨congrArg (Prod.mk _) (congrArg some h.counts), h⟩

theorem Alike.follow {s t : Session} (h : s.Alike t) {plan plan' : List Planned}
    (hplan : List.Forall₂ Planned.Matches plan plan') :
    (s.follow plan).1 = (t.follow plan').1 ∧
      (s.follow plan).2.1.map Observation.seen = (t.follow plan').2.1.map Observation.seen ∧
      (s.follow plan).2.2.Alike (t.follow plan').2.2 := by
  induction hplan generalizing s t with
  | nil => exact ⟨rfl, rfl, h⟩
  | @cons p q plan plan' hpq hrest ih =>
    obtain ⟨hseen, hstep⟩ := h.step hpq.call
    obtain ⟨houtcome, hmore, hend⟩ := ih hstep
    have hanswer : (s.step p.call).1.answer = (t.step q.call).1.answer := congrArg Prod.fst hseen
    unfold Session.follow
    dsimp only
    -- Whether the handler goes on depends on the answer alone, which both have seen.
    rw [hpq.goesOn, hanswer]
    split
    · exact ⟨rfl, congrArg (List.cons · []) hseen, hstep⟩
    · refine ⟨houtcome, ?_, hend⟩
      rw [List.map_cons, List.map_cons, hseen, hmore]

-- A handler leaves the exchanges alike and reports the same.
theorem handler_alike {e f : Exchange} (h : e.Alike f) {plan plan' : List Planned}
    (hplan : List.Forall₂ Planned.Matches plan plan') :
    (handler plan e).outcome = (handler plan' f).outcome ∧
      (handler plan e).report.map Observation.seen = (handler plan' f).report.map Observation.seen ∧
      (handler plan e).exchange.Alike (handler plan' f).exchange := by
  obtain ⟨houtcome, hseen, hend⟩ := (Alike.through { exchange := e } h).follow hplan
  exact ⟨houtcome, hseen, hend.release.exchange⟩

end Session

/-! ## Whole exchanges -/

open Session (Observation Planned handler)

/-- Both exchanges came out the same for the peer, the handler and the log, and took as much of the input.
Where the input is counted, the channels also found as much of the request left when they were closed. -/
structure Served.SameAs (counted : Bool) (a b : Served (List Observation)) : Prop where
  outcome : a.outcome = b.outcome
  report : a.report.map (List.map Observation.seen) = b.report.map (List.map Observation.seen)
  log : a.exchange.log = b.exchange.log
  sent : a.exchange.channel.sink.bytes = b.exchange.channel.sink.bytes
  taken : a.exchange.channel.source.taken = b.exchange.channel.source.taken
  closings : counted = true → a.exchange.channel.closings = b.exchange.channel.closings

/-- Whether the input of the exchange is counted. -/
def Served.counts {ω : Type} (a : Served ω) : Bool :=
  a.exchange.channel.remaining.isSome

theorem Served.SameAs.mono {a b : Served (List Observation)} {counted counted' : Bool}
    (h : a.SameAs counted b) (himp : counted' = true → counted = true) : a.SameAs counted' b :=
  { h with closings := fun hcounted => h.closings (himp hcounted) }

-- Counting begins with a declared length, and goes on to the end.
theorem counts_serve (config : Config) (peer : Peer) (source : Source) (sink : Sink)
    (plan : List Planned) :
    (serve config peer source sink (handler plan)).counts = peer.declared.isSome :=
  Channel.kept_countsAlike.serve config peer source sink (Session.makesCalls_handler plan)

namespace Exchange

variable {e f : Exchange} {report report' : Option (List Observation)}

theorem Alike.conclude (h : e.Alike f) (outcome : Except Fault Status)
    (hreport : report.map (List.map Observation.seen) = report'.map (List.map Observation.seen)) :
    (e.conclude outcome report).SameAs
      ((e.conclude outcome report).counts && (f.conclude outcome report').counts)
      (f.conclude outcome report') := by
  rcases h with ⟨e, hcd⟩
  obtain ⟨c', hclose, hc⟩ := close_through e hcd.left
  obtain ⟨d', hclose', hd⟩ := close_through e hcd.right
  obtain ⟨htaken, hsent⟩ := hcd.finished hc hd
  have hclosings : (c'.remaining.isSome && d'.remaining.isSome) = true → c'.closings = d'.closings := by
    rw [Bool.and_eq_true]
    exact fun hcounted => hcd.closings_finished hc hd hcounted.1 hcounted.2
  unfold Exchange.conclude
  rw [hclose, hclose']
  cases outcome with
  | ok status => exact ⟨rfl, hreport, rfl, hsent, htaken, hclosings⟩
  | error fault => exact ⟨rfl, hreport, rfl, hsent, htaken, hclosings⟩

theorem Alike.answerAndConclude (h : e.Alike f) (emitHeader : Bool)
    (hreport : report.map (List.map Observation.seen) = report'.map (List.map Observation.seen)) :
    (e.answerAndConclude emitHeader report).SameAs
      ((e.answerAndConclude emitHeader report).counts && (f.answerAndConclude emitHeader report').counts)
      (f.answerAndConclude emitHeader report') := by
  have hend := agree_answer emitHeader e f h
  unfold Exchange.answerAndConclude
  generalize answer emitHeader e = p at hend ⊢
  generalize answer emitHeader f = q at hend ⊢
  cases hend with
  | ok h => exact h.conclude _ hreport
  | error h => exact h.conclude _ hreport

end Exchange

-- Exchanges that start alike come out the same.
theorem serve_sameAs (peer peer' : Peer) {config config' : Config}
    (hheader : config.emitHeader = config'.emitHeader) {source source' : Source} {sink sink' : Sink}
    {plan plan' : List Planned}
    (hplan : List.Forall₂ Planned.Matches plan plan')
    (hprepare : SameEnd Exchange.Alike (Exchange.prepare (.received config peer source sink))
      (Exchange.prepare (.received config' peer' source' sink'))) :
    (serve config peer source sink (handler plan)).SameAs
      (peer.declared.isSome && peer'.declared.isSome)
      (serve config' peer' source' sink' (handler plan')) := by
  rw [← counts_serve config peer source sink plan, ← counts_serve config' peer' source' sink' plan']
  unfold serve
  rw [← hheader]
  generalize Exchange.prepare _ = p at hprepare ⊢
  generalize Exchange.prepare _ = q at hprepare ⊢
  cases hprepare with
  | error h => exact h.conclude _ rfl
  | @ok goesOn e f h =>
    cases goesOn with
    | false => exact h.answerAndConclude config.emitHeader rfl
    | true =>
      obtain ⟨houtcome, hseen, hexchange⟩ := Session.handler_alike h hplan
      dsimp only
      rw [houtcome]
      cases (handler plan' f).outcome with
      | error fault => exact hexchange.conclude _ (congrArg some hseen)
      | ok _ => exact hexchange.answerAndConclude config.emitHeader (congrArg some hseen)

/-- The lengths from which a header can be read give the same exchange as long as the channels are
alike. -/
theorem serve_of_alike (config : Config) (size : UInt64) (peer : Peer) (declared : Option Nat)
    {source source' : Source} {sink sink' : Sink} {plan plan' : List Planned}
    (hplan : List.Forall₂ Planned.Matches plan plan')
    (h : (Channel.opened source sink peer.declared config.bufferSize.toNat).Alike
      (Channel.opened source' sink' declared size.toNat))
    (hdeclared : peer.declared = declared ∨
      (∀ n ∈ peer.declared, Header.length < n) ∧ ∀ n ∈ declared, Header.length < n) :
    (serve config peer source sink (handler plan)).SameAs (peer.declared.isSome && declared.isSome)
      (serve { config with bufferSize := size } { peer with declared } source' sink'
        (handler plan')) := by
  have hprepare : SameEnd Exchange.Alike
      (Exchange.prepare ((Exchange.received config peer source sink).through (.opened source sink _ _)))
      (Exchange.prepare ((Exchange.received config peer source sink).through (.opened source' sink' _ _))) :=
    Exchange.sameEnd_prepare _ h hdeclared
  refine serve_sameAs peer { peer with declared } ?_ hplan ?_
  · rfl
  · exact hprepare

/-- An exchange does not depend on how its streams are cut into pieces, nor, where there is more than a
header, on whether the length of the whole input was declared. What the channel reports of single blocks and
sendings does, and so does what it finds left in the end where no length was declared: without one it knows
only of the bytes in its buffer. -/
theorem serve_regardless_of_buffers (config : Config) (size : UInt64) (peer : Peer)
    (data : List UInt8) {reads reads' : List ReadEvent} {writes writes' : List WriteEvent}
    (hreads : ({ rest := data, script := reads } : Source).Steady)
    (hreads' : ({ rest := data, script := reads' } : Source).Steady)
    (hwrites : ({ script := writes } : Sink).Steady)
    (hwrites' : ({ script := writes' } : Sink).Steady)
    {plan plan' : List Planned} (hplan : List.Forall₂ Planned.Matches plan plan') :
    ((∀ n ∈ peer.declared, n ≤ data.length) →
      (serve config peer { rest := data, script := reads } { script := writes } (handler plan)).SameAs
        peer.declared.isSome
        (serve { config with bufferSize := size } peer
          { rest := data, script := reads' } { script := writes' } (handler plan'))) ∧
    (Header.length < data.length →
      (serve config { peer with declared := some data.length }
          { rest := data, script := reads } { script := writes } (handler plan)).SameAs false
        (serve { config with bufferSize := size } { peer with declared := none }
          { rest := data, script := reads' } { script := writes' } (handler plan'))) := by
  constructor
  · intro hdeclared
    have halike := Channel.alike_opened hreads hreads' hwrites hwrites' hdeclared hdeclared
      config.bufferSize.toNat size.toNat rfl rfl rfl rfl
    refine (serve_of_alike config size peer peer.declared hplan halike (.inl rfl)).mono fun hcounted => ?_
    rw [hcounted]
    rfl
  · intro hlong
    have hdeclared : ∀ n ∈ some data.length, n ≤ data.length := by
      rintro n ⟨⟩
      exact Nat.le_refl _
    have hnone : ∀ n ∈ (none : Option Nat), n ≤ data.length := nofun
    have huntaken : data.take data.length = data := List.take_length
    have hbeyond : data.drop data.length = [] := List.drop_length
    have halike := Channel.alike_opened hreads hreads' hwrites hwrites' hdeclared hnone
      config.bufferSize.toNat size.toNat huntaken hbeyond rfl rfl
    have henough : ∀ n ∈ some data.length, Header.length < n := by
      rintro n ⟨⟩
      exact hlong
    exact (serve_of_alike config size { peer with declared := some data.length } none hplan halike
      (.inr ⟨henough, nofun⟩)).mono nofun

/-- A request with the two attributes that are checked, and a document of two bytes behind it. -/
def visit : List UInt8 :=
  RequestForm.bytes
    { header := { major := 1, minor := 1, operation := 0x000B, requestId := 7 }
      groups :=
        [⟨.operation,
          [⟨.charset, Text.utf8 "attributes-charset", Text.utf8 "utf-8", []⟩,
           ⟨.naturalLanguage, Text.utf8 "attributes-natural-language", Text.utf8 "en", []⟩]⟩] } ++ [8, 9]

/-- A handler that reads the document, into a sink that does `script`, and refuses the operation. -/
def visitor (script : List WriteEvent) : List Planned :=
  [{ call := .readDocument { script } }, { call := .rejectOperation }]

theorem serve_visit :
    (serve {} { declared := some visit.length }
      { rest := visit, script := [.upTo 1, .interrupted, .upTo 30] }
      { script := [.interrupted, .upTo 2] } (handler (visitor [.upTo 1]))).SameAs true
        (serve { bufferSize := 3 } { declared := some visit.length } { rest := visit } {}
          (handler (visitor []))) ∧
    (serve {} { declared := some visit.length }
      { rest := visit, script := [.upTo 1, .interrupted, .upTo 30] }
      { script := [.interrupted, .upTo 2] } (handler (visitor [.upTo 1]))).SameAs false
        (serve { bufferSize := 3 } {} { rest := visit } {} (handler (visitor []))) ∧
    (serve { bufferSize := 3 } {} { rest := visit } {} (handler (visitor []))).report.isSome = true := by
  have hreads : ({ rest := visit, script := [.upTo 1, .interrupted, .upTo 30] } : Source).Steady := by
    decide
  have hreads' : ({ rest := visit, script := [] } : Source).Steady := by decide
  have hwrites : ({ script := [.interrupted, .upTo 2] } : Sink).Steady := by decide
  have hwrites' : ({ script := [] } : Sink).Steady := by decide
  have hplan : List.Forall₂ Planned.Matches (visitor [.upTo 1]) (visitor []) :=
    .cons ⟨.document (by decide) (by decide) rfl, rfl⟩ (.cons ⟨.same rfl, rfl⟩ .nil)
  have hdeclared : ∀ n ∈ some visit.length, n ≤ visit.length := by
    rintro n ⟨⟩
    exact Nat.le_refl _
  have hserved := serve_regardless_of_buffers {} 3 { declared := some visit.length } visit hreads hreads'
    hwrites hwrites' hplan
  exact ⟨hserved.1 hdeclared, hserved.2 (by decide), by decide +kernel⟩

/-- A handler that refuses the operation and leaves the document where it is. -/
def refusal : List Planned :=
  [{ call := .rejectOperation }]

/-- That request is refused, through buffers of this size and without a declared length. -/
def refused (size : UInt64) : Served (List Observation) :=
  serve { bufferSize := size } {} { rest := visit } {} (handler refusal)

-- Without a declared length the channel knows of what its buffer holds, and of nothing else: through a large
-- buffer all is taken while the handler runs and both bytes of the document are found left, through a buffer
-- of one byte none.
theorem events_tell_buffers :
    ({ rest := visit } : Source).Steady ∧ ({} : Sink).Steady ∧
    List.Forall₂ Planned.Matches refusal refusal ∧
    (refused 512).exchange.channel.closings = [2] ∧ (refused 1).exchange.channel.closings = [0] ∧
    (refused 512).exchange.channel.events ≠ (refused 1).exchange.channel.events ∧
    (refused 512).report.map (List.map Observation.taken) = some [74] ∧
    (refused 1).report.map (List.map Observation.taken) = some [72] := by
  have hmatches : List.Forall₂ Planned.Matches refusal refusal := .cons ⟨.same rfl, rfl⟩ .nil
  exact ⟨by decide, by decide, hmatches, by decide +kernel⟩

end Ipp
