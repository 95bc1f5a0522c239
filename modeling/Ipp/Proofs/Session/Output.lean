import Ipp.Proofs.Exchange.Replying
import Ipp.Proofs.Exchange.Stages
import Ipp.Proofs.Session.Blame
import Ipp.Proofs.Session.Course

/-!
# What reaches the output

Up to the end the output has accepted what the exchange has produced for it, in order and once. In the end
the pending bytes are sent, and those of them are sent again that were accepted before sending broke off:
how far the output came is not kept.
-/

namespace Ipp

open Calls

/-! ## Exchanges -/

/-- Where the output ends up when the last block is begun twice: behind `done` a part of a block of at most
`size` bytes, and once more a part of it. When sending did not break off there is no first part. -/
def SentTwiceAtMost (size : Nat) (total : List UInt8) (clean : Prop) (output : List UInt8) : Prop :=
  ∃ (done block : List UInt8) (k again : Nat), done ++ block <+: total ∧ block.length ≤ size ∧
    output = done ++ block.take k ++ block.take again ∧ (clean → k = 0)

-- Where sending did not break off the output is a part of what was produced, each byte once.
theorem SentTwiceAtMost.bytes_prefix {size : Nat} {total output : List UInt8} {clean : Prop}
    (h : SentTwiceAtMost size total clean output) (hclean : clean) : output <+: total := by
  obtain ⟨done, block, k, again, htotal, -, rfl, hk⟩ := h
  rw [hk hclean, List.take_zero, List.append_nil]
  have htake : done ++ block.take again <+: done ++ block :=
    (List.prefix_append_right_inj done).mpr (List.take_prefix again block)
  exact htake.trans htotal

theorem SentTwiceAtMost.mono {size : Nat} {total output : List UInt8} {clean clean' : Prop}
    (h : SentTwiceAtMost size total clean output) (hclean : clean' → clean) :
    SentTwiceAtMost size total clean' output := by
  obtain ⟨done, block, k, again, htotal, hsize, heq, hk⟩ := h
  exact ⟨done, block, k, again, htotal, hsize, heq, hk ∘ hclean⟩

namespace Exchange

/-- The output has accepted what was produced, in `total`, up to the block that is pending, and a part of
that block where sending broke off. Until the reply is sent everything is accepted or pending, and there is
room in the buffer of `size` bytes. -/
structure Accounts (size : Nat) (total : List UInt8) (clean : Prop) (e : Exchange) : Prop where
  size : e.channel.size = size
  fits : e.channel.pending.size ≤ e.channel.size
  trails : ∃ done k, e.channel.Trails total done k ∧ (clean → k = 0)
  unsent : e.replied = false → e.channel.HasRoom ∧ e.channel.produced = total

variable {size : Nat} {total : List UInt8} {clean : Prop} {e e' : Exchange}

theorem Accounts.of_reads (h : e.Accounts size total clean) (hr : e.channel.Reads e'.channel)
    (hreplied : e'.replied = e.replied) : e'.Accounts size total clean where
  size := hr.size.trans h.size
  fits := by
    rw [hr.pending, hr.size]
    exact h.fits
  trails := by
    obtain ⟨done, k, htrails, hk⟩ := h.trails
    exact ⟨done, k, htrails.of_reads hr, hk⟩
  unsent hfresh := by
    obtain ⟨hroom, hproduced⟩ := h.unsent (hreplied.symm.trans hfresh)
    exact ⟨hroom.of_reads hr, (Channel.produced_of_reads hr).trans hproduced⟩

theorem Accounts.of_works (h : e.Accounts size total clean) (hw : e.Works e') :
    e'.Accounts size total clean :=
  h.of_reads hw.reads hw.replied

theorem Accounts.of_parses (h : e.Accounts size total clean) (hp : e.Parses e') :
    e'.Accounts size total clean := by
  refine h.of_reads hp.reads ?_
  rw [hp.rest]

theorem Accounts.mono (h : e.Accounts size total clean) {clean' : Prop} (hclean : clean' → clean) :
    e.Accounts size total clean' := by
  obtain ⟨done, k, htrails, hk⟩ := h.trails
  exact ⟨h.size, h.fits, ⟨done, k, htrails, hk ∘ hclean⟩, h.unsent⟩

-- Where all is accepted or pending, nothing is accepted that is pending.
theorem accounts_of_produced (hsize : e.channel.size = size) (htotal : e.channel.produced = total)
    (hroom : e.channel.HasRoom) : e.Accounts size total clean := by
  refine ⟨hsize, Nat.le_of_lt hroom, ⟨e.channel.sink.bytes, 0, ?_, fun _ => rfl⟩,
    fun _ => ⟨hroom, htotal⟩⟩
  rw [← htotal]
  exact e.channel.trails_produced

theorem accounts_opened (config : Config) (source : Source) (sink : Sink) (declared : Option Nat) :
    (opened config source sink declared).Accounts (max config.bufferSize.toNat 1) sink.bytes True :=
  accounts_of_produced rfl (List.append_nil _) (Channel.hasRoom_opened source sink declared _)

/-- A reply adds its bytes to what is produced. Where it fails by the output a part of the pending bytes may
be accepted already. -/
theorem Accounts.sendReply (h : e.Accounts size total clean) (header : Bool) :
    (final (Exchange.sendReply header e)).Accounts size (total ++ e.replyBytes header)
      (clean ∧ ∀ text e', Exchange.sendReply header e ≠ .error (.io text) e') := by
  by_cases hreplied : e.replied = true
  · rw [sendReply_of_replied hreplied, replyBytes_of_replied hreplied, List.append_nil]
    exact h.mono And.left
  have hfresh : e.replied = false := Bool.eq_false_iff.mpr hreplied
  obtain ⟨hroom, hproduced⟩ := h.unsent hfresh
  obtain ⟨e', x, hsifts, hx, heq⟩ := sendReply_eq hfresh header
  have hchannel : e'.channel = e.channel := by rw [hsifts.rest]
  have hspares := hx.room.spares hroom
  have hsize : (final (x e.channel)).size = size := by
    rcases hspares with ⟨sink, pending, events, hsame⟩
    rw [hsame]
    exact h.size
  rw [heq, onChannel]
  dsimp only
  rw [hchannel, ← hproduced]
  cases hsent : x e.channel with
  | ok a c =>
    rw [hsent] at hsize
    exact accounts_of_produced hsize (hx.ok hsent) (hx.hasRoom hroom hsent)
  | error fault c =>
    rw [hsent] at hsize
    have hbroke := hx.error hroom hsent
    obtain ⟨done, k, htrails, hk⟩ := hbroke.trails
    refine ⟨hsize, hbroke.fits, ⟨done, k, htrails, fun hclean => ?_⟩, fun hr => by cases hr⟩
    rcases hk with hk | ⟨text, rfl⟩
    · exact hk
    · exact absurd rfl (hclean.2 text _)

/-! ### The end -/

/-- In the end what is pending is sent, whatever was accepted of it. -/
theorem Accounts.close (h : e.Accounts size total clean) :
    SentTwiceAtMost size total clean (final (Exchange.close e)).channel.sink.bytes := by
  obtain ⟨done, k, htrails, hk⟩ := h.trails
  have hfits : e.channel.pending.toList.length ≤ size := by
    rw [Array.length_toList, ← h.size]
    exact h.fits
  unfold Exchange.close
  by_cases hclosed : e.closed = true
  · rw [if_pos hclosed]
    exact ⟨done, e.channel.pending.toList, k, 0, htrails.next, hfits,
      htrails.sent.trans (List.append_nil _).symm, hk⟩
  · rw [if_neg hclosed, final_onChannel]
    obtain ⟨again, hagain⟩ := e.channel.sink_finish
    refine ⟨done, e.channel.pending.toList, k, again, htrails.next, hfits, ?_, hk⟩
    rw [← htrails.sent]
    exact hagain

/-- The same holds of an answer, and the fault of its reply is the outcome. -/
theorem Accounts.answerAndConclude (h : e.Accounts size total clean) {ω : Type} (emitHeader : Bool)
    (report : Option ω) :
    SentTwiceAtMost size (total ++ e.worded.replyBytes emitHeader)
      (clean ∧ ∀ text, (e.answerAndConclude emitHeader report).outcome ≠ .error (.io text))
      (e.answerAndConclude emitHeader report).exchange.channel.sink.bytes := by
  have hsent := (h.of_works e.worded_works).sendReply emitHeader
  unfold Exchange.answerAndConclude
  rw [answer_eq]
  cases hs : Exchange.sendReply emitHeader e.worded with
  | ok a e' =>
    rw [hs] at hsent
    dsimp only
    rw [channel_conclude]
    exact (hsent.mono fun hclean => ⟨hclean.1, nofun⟩).close
  | error fault e' =>
    rw [hs] at hsent
    dsimp only
    rw [channel_conclude, outcome_conclude_error]
    refine (hsent.mono fun hclean => ⟨hclean.1, fun text e'' heq => ?_⟩).close
    cases heq
    exact hclean.2 text rfl

end Exchange

/-! ## Sessions -/

/-- The bytes that the call produces for the output. -/
def Call.produces (e : Exchange) : Call → List UInt8
  | .sendReply emitHeader => e.replyBytes emitHeader
  | _ => []

namespace Session

/-- The bytes that calls produce for the output, one after the other. -/
def produced : List Call → Session → List UInt8
  | [], _ => []
  | call :: calls, s => call.produces s.exchange ++ produced calls (s.step call).2

/-- No reply has failed by the output. -/
def RepliesCleanly (calls : List Call) (seen : List Observation) : Prop :=
  ∀ header o, (Call.sendReply header, o) ∈ calls.zip seen → ∀ text, o.answer ≠ .error (.io text)

theorem accounts_step {size : Nat} {total : List UInt8} {clean : Prop} {s : Session}
    (h : s.exchange.Accounts size total clean) (call : Call) :
    (s.step call).2.exchange.Accounts size (total ++ call.produces s.exchange)
      (clean ∧ RepliesCleanly [call] [(s.step call).1]) := by
  rw [step_eq]
  by_cases hsends : ∃ emitHeader, call = .sendReply emitHeader
  · obtain ⟨emitHeader, rfl⟩ := hsends
    have hfinal : (final (perform (.sendReply emitHeader) s)).exchange =
        final (s.exchange.sendReply emitHeader) :=
      exchange_final_onExchange (Exchange.sendReply emitHeader) (fun _ => .done) s
    rw [hfinal]
    refine (h.sendReply emitHeader).mono fun hclean => ⟨hclean.1, fun text e hfault => ?_⟩
    refine hclean.2 emitHeader _ List.mem_cons_self text ?_
    rw [step_sendReply, hfault]
    rfl
  · have hnone : call.produces s.exchange = [] := by
      cases call with
      | sendReply emitHeader => exact absurd ⟨emitHeader, rfl⟩ hsends
      | _ => rfl
    rw [hnone, List.append_nil]
    rcases perform_cases call s with ⟨-, hparses⟩ | hworks | ⟨emitHeader, hcall, -⟩
    · exact (h.of_parses hparses).mono And.left
    · exact (h.of_works hworks).mono And.left
    · exact absurd ⟨emitHeader, hcall⟩ hsends

theorem accounts_play {size : Nat} {total : List UInt8} {clean : Prop} (calls : List Call) {s : Session}
    (h : s.exchange.Accounts size total clean) :
    (s.play calls).2.exchange.Accounts size (total ++ produced calls s)
      (clean ∧ RepliesCleanly calls (s.play calls).1) := by
  induction calls generalizing total clean s with
  | nil =>
    rw [produced, List.append_nil]
    exact h.mono And.left
  | cons call calls ih =>
    have hrest := ih (accounts_step h call)
    rw [produced, ← List.append_assoc]
    refine hrest.mono fun hclean => ⟨⟨hclean.1, ?_⟩, ?_⟩
    · intro emitHeader o ho
      exact hclean.2 emitHeader o (List.mem_cons.mpr (.inl (List.mem_singleton.mp ho)))
    · exact fun emitHeader o ho => hclean.2 emitHeader o (List.mem_cons_of_mem _ ho)

end Session

/-! ## Whole exchanges -/

/-- The bytes that serving produces for the output, where the handler makes these calls. -/
def servedBytes {ω : Type} (config : Config) (peer : Peer) (source : Source) (sink : Sink)
    (handler : Handler ω) (calls : Exchange → List Call) : List UInt8 :=
  match Exchange.prepare (.received config peer source sink) with
  | .error _ _ => []
  | .ok false e => e.worded.replyBytes config.emitHeader
  | .ok true e =>
    Session.produced (calls e) { exchange := e } ++
      match (handler e).outcome with
      | .error _ => []
      | .ok () => (handler e).exchange.worded.replyBytes config.emitHeader

theorem serve_sentTwiceAtMost {ω : Type} (config : Config) (peer : Peer) (source : Source) (sink : Sink)
    {handler : Handler ω} {calls : Exchange → List Call}
    (hcalls : ∀ e, (handler e).exchange = (Session.play (calls e) { exchange := e }).2.exchange) :
    SentTwiceAtMost (max config.bufferSize.toNat 1)
      (sink.bytes ++ servedBytes config peer source sink handler calls)
      ((∀ e, Session.RepliesCleanly (calls e) (Session.play (calls e) { exchange := e }).1) ∧
        ∀ text, (serve config peer source sink handler).outcome ≠ .error (.io text))
      (serve config peer source sink handler).exchange.channel.sink.bytes := by
  have hreceived : (Exchange.received config peer source sink).Accounts (max config.bufferSize.toNat 1)
      sink.bytes True :=
    Exchange.accounts_of_produced rfl (List.append_nil _)
      (Channel.hasRoom_opened source sink peer.declared _)
  have hprepare := Exchange.keeps_prepare (fun hp h => Exchange.Accounts.of_parses h hp)
    (fun hw h => Exchange.Accounts.of_works h hw) _ hreceived
  unfold serve servedBytes
  cases hp : Exchange.prepare (.received config peer source sink) with
  | error fault e =>
    rw [hp] at hprepare
    dsimp only
    rw [List.append_nil, Exchange.channel_conclude]
    exact (hprepare.mono fun _ => trivial).close
  | ok goesOn e =>
    rw [hp] at hprepare
    cases goesOn with
    | false => exact (hprepare.answerAndConclude config.emitHeader none).mono fun h => ⟨trivial, h.2⟩
    | true =>
      have hhandled := Session.accounts_play (calls e) (s := { exchange := e }) hprepare
      rw [← hcalls e] at hhandled
      dsimp only
      cases (handler e).outcome with
      | error fault =>
        dsimp only
        rw [List.append_nil, Exchange.channel_conclude]
        exact (hhandled.mono fun h => ⟨trivial, h.1 e⟩).close
      | ok _ =>
        dsimp only
        rw [← List.append_assoc]
        exact (hhandled.answerAndConclude config.emitHeader _).mono
          fun h => ⟨⟨trivial, h.1 e⟩, h.2⟩

/-- The output has accepted at every moment before the end a part of what the exchange has produced for it,
in order, each byte once, whatever the streams do and wherever they fail. In the end, be it finished,
discarded or served, a part of the block that was pending may have been sent twice, where a reply has failed
by the output; where none has, each byte was sent once. -/
theorem output_in_order (config : Config) (source : Source) (sink : Sink) :
    (∀ (declared : Option Nat) (calls : List Call) (seen : List Session.Observation) (s : Session),
      Session.play calls { exchange := .opened config source sink declared } = (seen, s) →
      s.exchange.channel.sink.bytes <+:
        sink.bytes ++ Session.produced calls { exchange := .opened config source sink declared } ∧
      SentTwiceAtMost (max config.bufferSize.toNat 1)
        (sink.bytes ++ Session.produced calls { exchange := .opened config source sink declared })
        (Session.RepliesCleanly calls seen) s.finish.2.exchange.channel.sink.bytes ∧
      SentTwiceAtMost (max config.bufferSize.toNat 1)
        (sink.bytes ++ Session.produced calls { exchange := .opened config source sink declared })
        (Session.RepliesCleanly calls seen) s.discard.exchange.channel.sink.bytes) ∧
    ∀ (peer : Peer) (ω : Type) (handler : Handler ω) (calls : Exchange → List Call),
      (∀ e, (handler e).exchange = (Session.play (calls e) { exchange := e }).2.exchange) →
      SentTwiceAtMost (max config.bufferSize.toNat 1)
        (sink.bytes ++ servedBytes config peer source sink handler calls)
        ((∀ e, Session.RepliesCleanly (calls e) (Session.play (calls e) { exchange := e }).1) ∧
          ∀ text, (serve config peer source sink handler).outcome ≠ .error (.io text))
        (serve config peer source sink handler).exchange.channel.sink.bytes := by
  constructor
  · intro declared calls seen s h
    have hplayed := Session.accounts_play calls
      (s := { exchange := .opened config source sink declared })
      (Exchange.accounts_opened config source sink declared)
    rw [h] at hplayed
    have hclean : Session.RepliesCleanly calls seen → True ∧ Session.RepliesCleanly calls seen :=
      fun h => ⟨trivial, h⟩
    obtain ⟨done, k, htrails, -⟩ := hplayed.trails
    refine ⟨htrails.bytes_prefix, ?_, ?_⟩
    · rw [Session.exchange_finish]
      exact (hplayed.mono hclean).close
    · show SentTwiceAtMost _ _ _ s.exchange.discard.channel.sink.bytes
      rw [Exchange.channel_discard]
      exact (hplayed.mono hclean).close
  · intro peer ω handler calls hcalls
    exact serve_sentTwiceAtMost config peer source sink hcalls

/-- An exchange whose output accepts one byte and then fails once. -/
def interruptedOutput : Sink :=
  { script := [.upTo 1, .fault "gone"] }

def interrupted : Session :=
  { exchange := .opened {} { rest := [] } interruptedOutput none }

/-- A reply, sent once. -/
def interruptedCalls : List Call :=
  [.addStandard, .sendReply false]

/-- A handler that makes these calls and is content. -/
def interruptedHandler : Handler Unit := fun e =>
  { outcome := .ok (), exchange := (Session.play interruptedCalls { exchange := e }).2.exchange, report := () }

-- The reply fails behind its first byte, and that byte is all that is accepted then.
theorem interrupted_in_order :
    (interrupted.play interruptedCalls).1.map Session.Observation.sent = [0, 1] ∧
    (interrupted.play interruptedCalls).2.exchange.channel.sink.bytes <+:
      interruptedOutput.bytes ++ Session.produced interruptedCalls interrupted ∧
    SentTwiceAtMost (max ({} : Config).bufferSize.toNat 1)
      (interruptedOutput.bytes ++ Session.produced interruptedCalls interrupted) False
      (interrupted.play interruptedCalls).2.finish.2.exchange.channel.sink.bytes ∧
    SentTwiceAtMost (max ({} : Config).bufferSize.toNat 1)
      (interruptedOutput.bytes ++ servedBytes {} {} { rest := pipelined } interruptedOutput
        interruptedHandler fun _ => interruptedCalls) False
      (serve {} {} { rest := pipelined } interruptedOutput interruptedHandler).exchange.channel.sink.bytes := by
  have hplayed : interrupted.play interruptedCalls =
      ((interrupted.play interruptedCalls).1, (interrupted.play interruptedCalls).2) := (Prod.eta _).symm
  obtain ⟨hsession, -⟩ := output_in_order {} { rest := [] } interruptedOutput
  obtain ⟨-, hserve⟩ := output_in_order {} { rest := pipelined } interruptedOutput
  obtain ⟨horder, hfinish, -⟩ := hsession none interruptedCalls _ _ hplayed
  have hcalls : ∀ e, (interruptedHandler e).exchange =
      (Session.play interruptedCalls { exchange := e }).2.exchange := by
    intro e
    rw [interruptedHandler]
  have hserved := hserve {} Unit interruptedHandler (fun _ => interruptedCalls) hcalls
  exact ⟨by decide +kernel, horder, hfinish.mono nofun, hserved.mono nofun⟩

-- In the end the whole block is sent, and with it the first byte again.
theorem interrupted_sends_twice :
    (interrupted.play interruptedCalls).2.finish.2.exchange.channel.sink.bytes =
      (Session.produced interruptedCalls interrupted).take 1 ++
        Session.produced interruptedCalls interrupted ∧
    ¬(interrupted.play interruptedCalls).2.finish.2.exchange.channel.sink.bytes <+:
      Session.produced interruptedCalls interrupted ∧
    ¬(interrupted.play interruptedCalls).2.discard.exchange.channel.sink.bytes <+:
      Session.produced interruptedCalls interrupted := by
  decide +kernel

end Ipp
