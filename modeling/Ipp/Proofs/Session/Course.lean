import Ipp.Proofs.Exchange.Stages
import Ipp.Proofs.Session.Steps

/-!
# Staying in step with the transport

However an exchange goes, its input stands at the end of the request when it is over: the header or a
part of it cannot be read, the checks fail, a call or the handler fails, the reply cannot be built or
sent. The reply is put on the channel once at most, so that nothing runs over the buffer even where the
output fails; `OnCourse` is what every call keeps.
-/

namespace Ipp

open Calls

namespace Exchange

/-- The rest of the request can still be taken, `n` bytes in all with `rest` behind them; until the reply is
sent there is room in the buffer. -/
structure OnCourse (n : Nat) (rest : List UInt8) (e : Exchange) : Prop where
  channel : e.channel.OnCourse n rest
  unsent : e.replied = false → e.channel.HasRoom
  unclosed : e.closed = false

/-- The call stays on course. -/
abbrev KeepsCourse (n : Nat) (rest : List UInt8) {α : Type} (x : Action α) : Prop :=
  Keeps (fun e e' => e.OnCourse n rest → e'.OnCourse n rest) x

variable {n : Nat} {rest : List UInt8} {e e' : Exchange}

/-! ## Calls -/

theorem OnCourse.of_works (h : e.OnCourse n rest) (hw : e.Works e') : e'.OnCourse n rest where
  channel := h.channel.of_reads hw.reads
  unsent hr := (h.unsent (hw.replied.symm.trans hr)).of_reads hw.reads
  unclosed := hw.closed.trans h.unclosed

theorem OnCourse.of_parses (h : e.OnCourse n rest) (hp : e.Parses e') : e'.OnCourse n rest := by
  have hreads := hp.reads
  rw [hp.rest]
  exact ⟨h.channel.of_reads hreads, fun hr => (h.unsent hr).of_reads hreads, h.unclosed⟩

-- The reply is put on the channel where there is room; when that fails none is put any more.
theorem keepsCourse_sendReply (header : Bool) : KeepsCourse n rest (sendReply header) := by
  intro e h
  by_cases hreplied : e.replied = true
  · rw [final_sendReply_of_replied hreplied]
    exact h
  · have hfresh : e.replied = false := Bool.eq_false_iff.mpr hreplied
    obtain ⟨e', x, hsifts, hx, heq⟩ := final_sendReply hfresh header
    rw [heq]
    exact ⟨h.channel.of_spares (hx.spares (h.unsent hfresh)), nofun,
      hsifts.works.closed.trans h.unclosed⟩

theorem OnCourse.of_moves {call : Call} (h : e.OnCourse n rest) (hm : Session.Moves call e e') :
    e'.OnCourse n rest := by
  cases hm with
  | parses _ hparses => exact h.of_parses hparses
  | works hworks => exact h.of_works hworks
  | replies header hreplied =>
    rw [hreplied]
    exact keepsCourse_sendReply header e h

theorem keepsCourse_prepare : KeepsCourse n rest prepare :=
  keeps_prepare (fun hp h => h.of_parses hp) fun hw h => h.of_works hw

theorem keepsCourse_answer (emitHeader : Bool) : KeepsCourse n rest (answer emitHeader) := by
  intro e h
  have hsent := keepsCourse_sendReply emitHeader e.worded (h.of_works e.worded_works)
  rw [answer_eq]
  cases hs : sendReply emitHeader e.worded with
  | ok a e' =>
    rw [hs] at hsent
    exact hsent
  | error fault e' =>
    rw [hs] at hsent
    exact hsent

/-! ## The end -/

theorem OnCourse.close (h : e.OnCourse n rest) : (final e.close).channel.StandsAt n rest := by
  unfold Exchange.close
  rw [if_neg (by rw [h.unclosed]; decide), final_onChannel]
  exact h.channel.finish

theorem channel_discard (e : Exchange) : e.discard.channel = (final e.close).channel := by
  unfold discard
  cases e.close <;> rfl

theorem channel_conclude {ω : Type} (outcome : Except Fault Status) (report : Option ω)
    (e : Exchange) : (e.conclude outcome report).exchange.channel = (final e.close).channel := by
  unfold conclude
  cases outcome <;> cases e.close <;> rfl

theorem OnCourse.conclude (h : e.OnCourse n rest) {ω : Type} (outcome : Except Fault Status)
    (report : Option ω) : (e.conclude outcome report).exchange.channel.StandsAt n rest := by
  rw [channel_conclude]
  exact h.close

theorem OnCourse.answerAndConclude (h : e.OnCourse n rest) {ω : Type} (emitHeader : Bool)
    (report : Option ω) :
    (e.answerAndConclude emitHeader report).exchange.channel.StandsAt n rest := by
  unfold Exchange.answerAndConclude
  have hanswer : KeepsCourse n rest (answer emitHeader) := keepsCourse_answer emitHeader
  cases ha : answer emitHeader e with
  | ok status e' => exact (hanswer.ok ha h).conclude _ report
  | error fault e' => exact (hanswer.error ha h).conclude _ report

end Exchange

/-! ## Handlers -/

/-- The handler changes the exchange by calls only, whichever it chooses. -/
def Handler.MakesCalls {ω : Type} (handler : Handler ω) : Prop :=
  ∀ e, ∃ calls, (handler e).exchange = (Session.play calls { exchange := e }).2.exchange

namespace Session

-- A plan is followed by the calls of its beginning.
theorem follow_eq_play (plan : List Planned) (s : Session) :
    ∃ calls, (s.follow plan).2.2 = (s.play calls).2 := by
  induction plan generalizing s with
  | nil => exact ⟨[], rfl⟩
  | cons planned plan ih =>
    obtain ⟨calls, heq⟩ := ih (s.step planned.call).2
    unfold follow
    dsimp only
    split
    · exact ⟨[planned.call], rfl⟩
    · exact ⟨planned.call :: calls, heq⟩

theorem play_append (calls more : List Call) (s : Session) :
    (s.play (calls ++ more)).2 = ((s.play calls).2.play more).2 := by
  induction calls generalizing s with
  | nil => rfl
  | cons call calls ih => exact ih (s.step call).2

theorem makesCalls_handler (plan : List Planned) : (handler plan).MakesCalls := by
  intro e
  obtain ⟨calls, heq⟩ := follow_eq_play plan { exchange := e }
  refine ⟨calls ++ [.release], ?_⟩
  show (follow plan { exchange := e }).2.2.release.exchange = _
  rw [heq, play_append]
  rfl

theorem onCourse_play {n : Nat} {rest : List UInt8} {s : Session} (h : s.exchange.OnCourse n rest)
    (calls : List Call) : (s.play calls).2.exchange.OnCourse n rest :=
  play_keeps (fun _ _ _ _ hm h => h.of_moves hm) h

theorem exchange_finish (s : Session) : s.finish.2.exchange = final s.exchange.close := by
  unfold finish onExchange
  cases s.exchange.close <;> rfl

end Session

/-! ## Whole exchanges -/

theorem Exchange.onCourse_opened (config : Config) {source : Source} (hs : source.Steady)
    (hfresh : source.taken = 0) (sink : Sink) {declared : Option Nat}
    (hd : ∀ n ∈ declared, n ≤ source.rest.length) :
    (opened config source sink declared).OnCourse (declared.getD source.rest.length)
      (source.rest.drop (declared.getD source.rest.length)) where
  channel := Channel.onCourse_opened hs hfresh sink hd _
  unsent _ := Channel.hasRoom_opened source sink declared _
  unclosed := rfl

-- Where the reading ends early nothing is answered, and where the checks fail nothing is handled.
theorem Exchange.OnCourse.serve {ω : Type} {config : Config} {peer : Peer} {source : Source}
    {sink : Sink} {n : Nat} {rest : List UInt8}
    (h : (Exchange.received config peer source sink).OnCourse n rest) {handler : Handler ω}
    (hhandler : handler.MakesCalls) :
    (Ipp.serve config peer source sink handler).exchange.channel.StandsAt n rest := by
  have hprepare := Exchange.keepsCourse_prepare _ h
  unfold Ipp.serve
  cases hp : Exchange.prepare (.received config peer source sink) with
  | error fault e =>
    rw [hp] at hprepare
    exact hprepare.conclude _ none
  | ok goesOn e =>
    rw [hp] at hprepare
    cases goesOn with
    | false => exact hprepare.answerAndConclude config.emitHeader none
    | true =>
      obtain ⟨calls, hcalls⟩ := hhandler e
      have hhandled := Session.onCourse_play (s := { exchange := e }) hprepare calls
      rw [← hcalls] at hhandled
      dsimp only
      cases (handler e).outcome with
      | error fault => exact hhandled.conclude _ _
      | ok _ => exact hhandled.answerAndConclude config.emitHeader _

theorem Session.standsAt_finish {s : Session} {n : Nat} {rest : List UInt8}
    (h : s.exchange.OnCourse n rest) : s.finish.2.exchange.channel.StandsAt n rest := by
  rw [Session.exchange_finish]
  exact h.close

theorem Session.standsAt_discard {s : Session} {n : Nat} {rest : List UInt8}
    (h : s.exchange.OnCourse n rest) : s.discard.exchange.channel.StandsAt n rest := by
  show s.exchange.discard.channel.StandsAt n rest
  rw [Exchange.channel_discard]
  exact h.close

/-- When an exchange is over exactly the declared bytes were taken from the input, or all of them where no
length was declared, and the rest is left: whatever the streams, the handler and its calls do, as long as
the input gives what was declared. So it is when an exchange is finished or discarded after any calls. -/
theorem serve_standsAt_end {ω : Type} (config : Config) (peer : Peer) {data : List UInt8}
    {reads : List ReadEvent} (hreads : ({ rest := data, script := reads } : Source).Steady)
    (sink : Sink) (hdeclared : ∀ n ∈ peer.declared, n ≤ data.length) :
    (∀ handler : Handler ω, handler.MakesCalls →
      (serve config peer { rest := data, script := reads } sink handler).exchange.channel.StandsAt
        (peer.declared.getD data.length) (data.drop (peer.declared.getD data.length))) ∧
    ∀ (calls : List Call) (s : Session),
      s = (Session.play calls
        { exchange := .opened config { rest := data, script := reads } sink peer.declared }).2 →
      s.finish.2.exchange.channel.StandsAt
        (peer.declared.getD data.length) (data.drop (peer.declared.getD data.length)) ∧
      s.discard.exchange.channel.StandsAt
        (peer.declared.getD data.length) (data.drop (peer.declared.getD data.length)) := by
  have hopened := Exchange.onCourse_opened config hreads rfl sink hdeclared
  constructor
  · intro handler hhandler
    have hreceived : (Exchange.received config peer { rest := data, script := reads } sink).OnCourse
        (peer.declared.getD data.length) (data.drop (peer.declared.getD data.length)) :=
      ⟨hopened.channel, hopened.unsent, hopened.unclosed⟩
    exact hreceived.serve hhandler
  · rintro calls s rfl
    have hplayed := Session.onCourse_play (s := { exchange := _ }) hopened calls
    exact ⟨Session.standsAt_finish hplayed, Session.standsAt_discard hplayed⟩

/-- A request with the two attributes that are checked, and a document of three bytes. -/
def pipelined : List UInt8 :=
  RequestForm.bytes
    { header := { major := 1, minor := 1, operation := 0x0002, requestId := 7 }
      groups :=
        [⟨.operation,
          [⟨.charset, Text.utf8 "attributes-charset", Text.utf8 "utf-8", []⟩,
           ⟨.naturalLanguage, Text.utf8 "attributes-natural-language", Text.utf8 "en", []⟩]⟩] } ++
    [8, 9, 10]

/-- A plan that hands the document to a sink that fails, and goes on with a reply. -/
def clumsyPlan : List Session.Planned :=
  [{ call := .readDocument { script := [.upTo 1, .fault "full"] } },
   { call := .sendReply false, goesOn := true }, { call := .sendReply false }]

-- The output is gone after three bytes; all calls are made, and the input stands before the next request.
theorem serve_clumsyPlan :
    (serve { bufferSize := 4 } { declared := some pipelined.length }
      { rest := pipelined ++ [1, 1], script := [.upTo 1, .interrupted, .upTo 30] }
      { script := [.upTo 3, .fault "gone"], flushFault := some "gone" }
      (Session.handler clumsyPlan)).exchange.channel.StandsAt pipelined.length [1, 1] ∧
    (serve { bufferSize := 4 } { declared := some pipelined.length }
      { rest := pipelined ++ [1, 1], script := [.upTo 1, .interrupted, .upTo 30] }
      { script := [.upTo 3, .fault "gone"], flushFault := some "gone" }
      (Session.handler clumsyPlan)).report.map List.length = some 3 := by
  have hreads : ({ rest := pipelined ++ [1, 1], script := [.upTo 1, .interrupted, .upTo 30] } :
      Source).Steady := by decide
  have hdeclared : ∀ n ∈ some pipelined.length, n ≤ (pipelined ++ [1, 1]).length := by
    rintro n ⟨⟩
    decide
  have hserved := (serve_standsAt_end { bufferSize := 4 } { declared := some pipelined.length } hreads
    { script := [.upTo 3, .fault "gone"], flushFault := some "gone" } hdeclared).1
    (Session.handler clumsyPlan) (Session.makesCalls_handler clumsyPlan)
  refine ⟨hserved, ?_⟩
  decide +kernel

end Ipp
