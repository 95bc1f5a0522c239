import Ipp.Proofs.Session.Stopping

/-!
# A file in place of a reply

A file that is sent in place of a reply is sent whole and alone, behind a header that gives its length where
one is asked for (`file_sent_alone`). The header goes through the buffer and the file past it, so that the
header has to be sent first; what is queued and what nobody has claimed stays where it is.
-/

namespace Ipp

open Calls

namespace Exchange

/-! ## Sending a file -/

-- The header, where one is asked for, names the type of the reply and its length.
theorem filePreamble_eq (header : Bool) (length : Nat) :
    filePreamble header length = if header then
        Text.utf8 ("Content-Type: application/ipp\r\nContent-Length: " ++ Text.decimal length ++
          "\r\n\r\n")
      else [] := by
  cases header <;> rfl

/-- On an open channel the header and the content reach the output behind what was put before. -/
theorem sendFile_of_open {c : Channel} (h : c.Open) (header : Bool) (content : List UInt8) :
    ∃ d, sendFile header content c = .ok () d ∧ d.Open ∧ d.pending = #[] ∧
      d.sink.bytes = c.produced ++ (filePreamble header content.length ++ content) := by
  obtain ⟨c₁, hput⟩ := h.putBytes (filePreamble header content.length)
  obtain ⟨hsends₁, hproduced₁⟩ := Channel.putBytes_ok hput
  obtain ⟨c₂, hcopy⟩ := (hsends₁.isOpen h).copyFile content
  obtain ⟨hsends₂, hproduced₂⟩ := Channel.copyFile_ok hcopy
  have hopen : c₂.Open := hsends₂.isOpen (hsends₁.isOpen h)
  obtain ⟨d, hflush⟩ := hopen.flush
  obtain ⟨hsends, hbytes, hpending⟩ := Channel.flush_ok hflush
  refine ⟨d, ?_, hsends.isOpen hopen, hpending, ?_⟩
  · unfold sendFile
    rw [bind_of_ok hput, bind_of_ok hcopy, hflush]
  · rw [hbytes, hproduced₂, hproduced₁, List.append_assoc]

/-! ## Before the reply -/

/-- No reply was sent, and nothing was put on the channel; a file may have been named. -/
def Unsent (sink : Sink) (e : Exchange) : Prop :=
  ({ e with substitute := none } : Exchange).Fresh sink

variable {sink : Sink} {e e' : Exchange}

theorem Unsent.of_reads (h : e.Unsent sink) (hr : e.channel.Reads e'.channel)
    (hreplied : e'.replied = e.replied) (hclosed : e'.closed = e.closed) : e'.Unsent sink := by
  have hfresh : ({ e with substitute := none } : Exchange).Fresh sink := h
  show ({ e' with substitute := none } : Exchange).Fresh sink
  exact hfresh.of_reads hr hreplied rfl hclosed

-- Only the calls that send the reply leave this state.
theorem Unsent.of_moves (h : e.Unsent sink) {call : Call} (hm : Session.Moves call e e')
    (hunsent : e'.replied = false) : e'.Unsent sink := by
  cases hm with
  | parses _ hparses => exact h.of_reads hparses.reads (by rw [hparses.rest]) (by rw [hparses.rest])
  | works hworks => exact h.of_reads hworks.reads hworks.replied hworks.closed
  | replies header hreplied =>
    have hsent := Session.replied_sendReply header e
    rw [← hreplied, hunsent] at hsent
    cases hsent

/-- A first reply for which a file was named sends the file, and nothing else changes. -/
theorem Unsent.sendReply (h : e.Unsent sink) {content : List UInt8} (hfile : e.substitute = some content)
    (header : Bool) :
    ∃ c, Exchange.sendReply header e =
        .ok () { e with replied := true, substitute := none, channel := c } ∧
      ({ e with replied := true, substitute := none, channel := c } : Exchange).Settled
        (sink.bytes ++ (filePreamble header content.length ++ content)) [] := by
  have hfresh : ({ e with substitute := none } : Exchange).Fresh sink := h
  have hopen : e.channel.Open := hfresh.channel
  have hunsent : e.replied = false := hfresh.unsent
  have hproduced : e.channel.produced = sink.bytes := hfresh.produced
  obtain ⟨c, hsend, hopen', hpending, hbytes⟩ := sendFile_of_open hopen header content
  rw [hproduced] at hbytes
  refine ⟨c, ?_, hopen', hbytes, congrArg Array.toList hpending, rfl, hfresh.unclosed⟩
  rw [sendReply_of_file hunsent hfile, onChannel, hsend]

end Exchange

/-! ## Sessions -/

namespace Session

variable {sink : Sink} {s : Session}

theorem unsent_play {calls : List Call} (h : s.exchange.Unsent sink)
    (hunsent : (s.play calls).2.exchange.replied = false) : (s.play calls).2.exchange.Unsent sink := by
  suffices hkeeps : (s.play calls).2.exchange.replied = false → (s.play calls).2.exchange.Unsent sink from
    hkeeps hunsent
  refine play_keeps (P := fun e => e.replied = false → e.Unsent sink)
    (fun call _ e e' hmoves hbefore hafter => ?_) fun _ => h
  by_cases hreplied : e.replied = true
  · -- A reply that was sent stays sent.
    cases hmoves with
    | parses _ hparses =>
      rw [hparses.rest] at hafter
      cases hafter.symm.trans hreplied
    | works hworks => cases (hworks.replied.symm.trans hafter).symm.trans hreplied
    | replies header heq =>
      rw [heq, replied_sendReply] at hafter
      cases hafter
  · exact (hbefore (Bool.eq_false_iff.mpr hreplied)).of_moves hmoves hafter

-- A file that was named is kept for the reply.
theorem unsent_play_file {calls : List Call} (hcalls : ∀ call ∈ calls, call.replies = false)
    {content : List UInt8} (h : s.exchange.Unsent sink) (hfile : s.exchange.substitute = some content) :
    (s.play calls).2.exchange.Unsent sink ∧ (s.play calls).2.exchange.substitute = some content := by
  refine play_induction (P := fun e => e.Unsent sink ∧ e.substitute = some content)
    (fun call hc t ht => ?_) ⟨h, hfile⟩
  refine ⟨?_, (substitute_perform (hcalls call hc) t).trans ht.2⟩
  rcases perform_cases call t with ⟨-, hparses⟩ | hworks | ⟨header, rfl, -⟩
  · exact ht.1.of_reads hparses.reads (by rw [hparses.rest]) (by rw [hparses.rest])
  · exact ht.1.of_reads hworks.reads hworks.replied hworks.closed
  · cases hcalls _ hc

end Session

/-- In every state in which no reply was sent yet, on an output that does not fail: once a file is named, and
whatever is called before the reply, sending the reply succeeds. The output then holds the header with the
length of the file, where one is asked for, and the whole file, and nothing comes behind it, be it by later
calls or when the session ends. The request and the queue are as they were, and another reply is refused. -/
theorem file_sent_alone (config : Config) (source : Source) {sink : Sink} (hsteady : sink.Steady)
    (declared : Option Nat) {calls : List Call} {s : Session}
    (hs : s = (Session.play calls { exchange := .opened config source sink declared }).2)
    (hunsent : s.exchange.replied = false) (content : List UInt8) {between : List Call}
    (hbetween : ∀ call ∈ between, call.replies = false) (header : Bool) {t : Session}
    (ht : t = (s.play (.replyFromFile content :: between)).2) :
    ∃ u, Session.perform (.sendReply header) t = .ok .done u ∧
      u.Leaves (sink.bytes ++ ((if header then
          Text.utf8 ("Content-Type: application/ipp\r\nContent-Length: " ++ Text.decimal content.length ++
            "\r\n\r\n")
        else []) ++ content)) [] ∧
      u.exchange.request = t.exchange.request ∧ u.exchange.queue = t.exchange.queue ∧
      ∀ header', Session.perform (.sendReply header') u = .error .replyAlreadySent u := by
  have hfresh : s.exchange.Unsent sink := by
    rw [hs] at hunsent ⊢
    exact Session.unsent_play (Exchange.fresh_opened config source hsteady declared) hunsent
  -- Naming the file changes nothing else.
  have hnamed : (s.step (.replyFromFile content)).2.exchange.Unsent sink :=
    hfresh.of_reads (.refl _) rfl rfl
  obtain ⟨hready, hfile⟩ : t.exchange.Unsent sink ∧ t.exchange.substitute = some content := by
    rw [ht]
    exact Session.unsent_play_file hbetween hnamed rfl
  obtain ⟨c, hsend, hsettled⟩ := hready.sendReply hfile header
  rw [Exchange.filePreamble_eq] at hsettled
  refine ⟨{ t with exchange := _ }, ?_, Session.leaves_of_settled hsettled, rfl, rfl, fun header' => ?_⟩
  · rw [Session.perform, Session.answer_onExchange _ fun _ => Answer.done, hsend]
  · rw [Session.perform, Session.answer_onExchange _ fun _ => Answer.done,
      Exchange.sendReply_of_replied hsettled.replied]

/-- A session with an attribute in the request and others in the queue, over a buffer of five bytes and an
output that takes a few bytes at a time. -/
def stocked : Session :=
  (Session.play [.parse, .addStandard, .addInteger .job .integer "a" 1]
    { exchange :=
        .opened { bufferSize := 5 } Exchange.inquirySource
          { script := [.upTo 2, .interrupted, .upTo 1, .upTo 7, .upTo 40] } none }).2

/-- Another attribute is queued behind the file. -/
def stockedEnd : Session :=
  (stocked.play [.replyFromFile [1, 2, 3], .addBoolean .job .boolean "b" true]).2

theorem stocked_file_sent :
    stockedEnd.exchange.request.map (·.name) = ["a"] ∧
    (stockedEnd.exchange.queue.attributes .job).map (·.name) = ["a", "b"] ∧
    ∃ u, Session.perform (.sendReply true) stockedEnd = .ok .done u ∧
      u.exchange.channel.sink.bytes =
        Text.utf8 "Content-Type: application/ipp\r\nContent-Length: 3\r\n\r\n" ++ [1, 2, 3] ∧
      u.exchange.request = stockedEnd.exchange.request ∧ u.exchange.queue = stockedEnd.exchange.queue := by
  have hsteady : ({ script := [.upTo 2, .interrupted, .upTo 1, .upTo 7, .upTo 40] } : Sink).Steady := by
    decide
  have hunsent : stocked.exchange.replied = false := by decide +kernel
  have hbetween : ∀ call ∈ [Call.addBoolean .job .boolean "b" true], call.replies = false := by decide
  have hstart : stocked = (Session.play [.parse, .addStandard, .addInteger .job .integer "a" 1]
      { exchange := .opened { bufferSize := 5 } Exchange.inquirySource
          { script := [.upTo 2, .interrupted, .upTo 1, .upTo 7, .upTo 40] } none }).2 := rfl
  have hend : stockedEnd =
      (stocked.play [.replyFromFile [1, 2, 3], .addBoolean .job .boolean "b" true]).2 := rfl
  obtain ⟨u, hsent, hleaves, hrequest, hqueue, -⟩ := file_sent_alone { bufferSize := 5 }
    Exchange.inquirySource hsteady none hstart hunsent [1, 2, 3] hbetween true hend
  refine ⟨by decide +kernel, by decide +kernel, u, hsent, ?_, hrequest, hqueue⟩
  have hbytes : u.exchange.channel.sink.bytes = _ := hleaves.during []
  rw [hbytes]
  decide +kernel

end Ipp
