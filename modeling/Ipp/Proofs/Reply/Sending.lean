import Ipp.Exchange.Reply
import Ipp.Proofs.Channel.Sending
import Ipp.Proofs.Exchange.Claims
import Ipp.Proofs.Reply.Form
import Ipp.Proofs.Request.Contents

/-!
# Replies on the wire

A reply that was sent consists of the encoding of the swept queue, behind what was put on the channel
before, and is read by a fresh exchange as the settled attributes of that queue.
-/

namespace Ipp

open Calls

/-! ## What can be sent back -/

-- Whatever can be read can be sent back.
theorem Attribute.IsRead.sendable {a : Attribute} (h : a.IsRead) : a.Sendable := by
  rcases h with ⟨f, hf, ha⟩
  have htag : lastDelimiter < f.tag.byte := (hf.items _ List.mem_cons_self).tag
  rw [ha]
  refine ⟨Text.ofUtf8Lossy_ne_empty hf.named, htag, nofun, fun _ v hv => ?_, fun _ v hv => ?_⟩
  · cases hv
    exact ⟨f.value, hf.value, rfl⟩
  · rcases List.mem_cons.mp hv with rfl | hv
    · exact Value.IsOf.isAdditional ⟨f.value, hf.value, rfl⟩ htag
    · obtain ⟨w, hw, rfl⟩ := List.mem_map.mp hv
      have hitem : AttributeForm.nameless w ∈ f.items :=
        List.mem_cons_of_mem _ (List.mem_map_of_mem hw)
      exact ⟨w, (hf.items _ hitem).tag, hf.more w hw, rfl⟩

theorem Attribute.Sendable.unsupported {a : Attribute} (h : a.Sendable) : a.unsupported.Sendable :=
  ⟨h.name, h.tag, h.template, h.first, h.values⟩

namespace Exchange

/-! ## Sending -/

theorem sweep_eq (e : Exchange) :
    e.sweep = { e with
      request := e.request.filter (!isSwept ·)
      queue := e.queue.refuse (e.request.filter isSwept) } :=
  foldl_demote _ _

-- What nobody has claimed is queued last in the unsupported group.
theorem list_sweep (e : Exchange) : e.sweep.queue.list .unsupported =
    e.queue.list .unsupported ++
      (e.request.filter isSwept).map fun a => .attribute a.unsupported := by
  rw [sweep_eq]
  exact Queue.list_refuse _ _ _

theorem putEncoding_ok {encoding : Encoding} {c d : Channel} (h : putEncoding encoding c = .ok () d) :
    encoding.fault = none ∧ c.Sends d ∧ d.sink.bytes = c.produced ++ encoding.bytes ∧
      d.pending = #[] := by
  obtain ⟨⟨⟩, c', hput, h⟩ := bind_eq_ok.mp h
  obtain ⟨hsends, hproduced⟩ := Channel.putBytes_ok hput
  cases hfault : encoding.fault with
  | some fault =>
    rw [hfault] at h
    cases h
  | none =>
    rw [hfault] at h
    obtain ⟨hsends', hbytes, hpending⟩ := Channel.flush_ok h
    exact ⟨rfl, hsends.trans hsends', hbytes.trans hproduced, hpending⟩

@[simp] theorem sweep_channel (e : Exchange) : e.sweep.channel = e.channel := by rw [sweep_eq]
@[simp] theorem sweep_root (e : Exchange) : e.sweep.root = e.root := by rw [sweep_eq]
@[simp] theorem sweep_header (e : Exchange) : e.sweep.header = e.header := by rw [sweep_eq]
@[simp] theorem sweep_status (e : Exchange) : e.sweep.status = e.status := by rw [sweep_eq]

theorem sendQueue_ok {header : Bool} {e e' : Exchange} (h : sendQueue header e = .ok () e') :
    (encodeReply e.root e.header e.status e.sweep.queue).fault = none ∧
      ∃ c, e' = { e.sweep with channel := c } ∧ e.channel.Sends c ∧
        c.sink.bytes = e.channel.produced ++ (replyPreamble header ++
          (encodeReply e.root e.header e.status e.sweep.queue).bytes) := by
  unfold sendQueue at h
  dsimp only at h
  split at h
  · cases h
  obtain ⟨c, hput, rfl⟩ := onChannel_eq_ok.mp h
  rw [sweep_root, sweep_header, sweep_status, sweep_channel] at hput
  obtain ⟨hfault, hsends, hbytes, -⟩ := putEncoding_ok hput
  obtain ⟨-, hfault', happend⟩ := Encoding.of_append hfault
  rw [happend] at hbytes
  exact ⟨hfault', c, rfl, hsends, hbytes⟩

-- A reply from the queue was sent: the queue was swept, and its whole encoding is on the output.
theorem sendReply_ok {header : Bool} {e e' : Exchange} (hsub : e.substitute = none)
    (h : sendReply header e = .ok () e') :
    e.replied = false ∧ (encodeReply e.root e.header e.status e.sweep.queue).fault = none ∧
      ∃ c, e' = { e.sweep with replied := true, channel := c } ∧
        c.sink.bytes = e.channel.produced ++ (replyPreamble header ++
          (encodeReply e.root e.header e.status e.sweep.queue).bytes) := by
  unfold sendReply at h
  by_cases hreplied : e.replied = true
  · rw [if_pos hreplied] at h
    cases h
  rw [if_neg hreplied] at h
  dsimp only at h
  split at h
  · next content hcontent =>
    rw [hsub] at hcontent
    cases hcontent
  · obtain ⟨hfault, c, rfl, -, hbytes⟩ := sendQueue_ok h
    rw [sweep_eq] at hfault hbytes ⊢
    rw [sweep_eq]
    exact ⟨Bool.eq_false_iff.mpr hreplied, hfault, c, rfl, hbytes⟩

-- Reading puts nothing on the channel.
theorem Parses.produced {config : Config} {source : Source} {sink : Sink} {declared : Option Nat}
    {e : Exchange} (h : (opened config source sink declared).Parses e) :
    e.channel.produced = sink.bytes := by
  rw [Channel.produced_of_reads h.reads]
  exact List.append_nil _

-- On an open channel only the encoding itself can fail.
theorem putEncoding_of_open {c : Channel} (h : c.Open) (encoding : Encoding) :
    ∃ d, c.Sends d ∧ putEncoding encoding c =
      match encoding.fault with
      | some fault => .error fault d
      | none => .ok () d := by
  obtain ⟨d, hput⟩ := h.putBytes encoding.bytes
  obtain ⟨hsends, -⟩ := Channel.putBytes_ok hput
  unfold putEncoding
  rw [bind_of_ok hput]
  cases encoding.fault with
  | some fault => exact ⟨d, hsends, rfl⟩
  | none =>
    obtain ⟨d', hflush⟩ := (hsends.isOpen h).flush
    exact ⟨d', hsends.trans (Channel.flush_ok hflush).1, hflush⟩

-- So a first reply that has operation attributes fails only as its encoding does.
theorem sendReply_of_open {e : Exchange} (hopen : e.channel.Open) (hreplied : e.replied = false)
    (hsub : e.substitute = none) (hoperation : e.sweep.queue.operation ≠ []) (header : Bool) :
    ∃ c, e.channel.Sends c ∧ sendReply header e =
      match (encodeReply e.root e.header e.status e.sweep.queue).fault with
      | some fault => .error fault { e.sweep with replied := true, channel := c }
      | none => .ok () { e.sweep with replied := true, channel := c } := by
  obtain ⟨c, hsends, hput⟩ := putEncoding_of_open hopen
    (.ofBytes (replyPreamble header) ++ encodeReply e.root e.header e.status e.sweep.queue)
  refine ⟨c, hsends, ?_⟩
  have hsweep : ({ e with replied := true } : Exchange).sweep = { e.sweep with replied := true } := by
    rw [sweep_eq, sweep_eq]
  unfold sendReply
  rw [if_neg (by rw [hreplied]; decide)]
  dsimp only
  rw [hsub]
  dsimp only
  unfold sendQueue
  dsimp only
  rw [← hsub, hsweep, if_neg (by simpa using hoperation), onChannel]
  simp only [sweep_root, sweep_header, sweep_status, sweep_channel]
  rw [hput, Encoding.append_of_none rfl]
  cases (encodeReply e.root e.header e.status e.sweep.queue).fault <;> rfl

theorem sendReply_of_bytes {e : Exchange} (hopen : e.channel.Open) (hreplied : e.replied = false)
    (hsub : e.substitute = none) (hoperation : e.sweep.queue.operation ≠ []) {bytes : List UInt8}
    (hencoded : encodeReply e.root e.header e.status e.sweep.queue = .ofBytes bytes) (header : Bool) :
    ∃ e', sendReply header e = .ok () e' ∧
      e'.channel.sink.bytes = e.channel.produced ++ (replyPreamble header ++ bytes) := by
  obtain ⟨c, -, hsent⟩ := sendReply_of_open hopen hreplied hsub hoperation header
  rw [hencoded] at hsent
  obtain ⟨-, -, c', heq, hbytes⟩ := sendReply_ok hsub hsent
  refine ⟨_, hsent, ?_⟩
  rw [heq]
  rw [hencoded] at hbytes
  exact hbytes

/-! ## Reading back -/

/-- A fresh exchange over a reply reads the settled attributes of the queue, in the order of a reply. -/
theorem parse_encodeReply {root : String} {h : Header} {status : Status} {q : Queue}
    (hq : q.Sendable) (hfault : (encodeReply root h status q).fault = none) (config : Config)
    {source : Source} (hs : source.Steady) (sink : Sink) {declared : Option Nat}
    (hrest : source.rest = (encodeReply root h status q).bytes)
    (hdeclared : ∀ n, declared = some n → source.rest.length ≤ n) :
    ∃ e, parse (opened config source sink declared) = .ok () e ∧ e.header = h.ofReply status ∧
      e.request.map Attribute.unplaced =
        replyOrder.flatMap fun g => (q.attributes g).map (·.settled root) := by
  obtain ⟨f, hf, hbytes, hheader, hcontents⟩ := encodeReply_form hq hfault
  have hupcoming : (opened config source sink declared).channel.upcoming = f.bytes ++ [] := by
    rw [List.append_nil, ← hbytes, ← hrest]
    cases hd : declared with
    | none => rfl
    | some n => exact List.take_of_length_le (hdeclared n hd)
  have henough : (opened config source sink declared).DeclaresEnough := by
    intro n hn
    have hlong := hdeclared n hn
    rw [hrest, hbytes] at hlong
    exact Nat.lt_of_lt_of_le f.header_lt_length hlong
  have hsteady : (opened config source sink declared).channel.Steady :=
    Channel.steady_opened hs sink declared _
  obtain ⟨c, log, hparse, -, -⟩ := parse_of_bytes hsteady henough hf hupcoming
  refine ⟨_, hparse, hheader, ?_⟩
  rw [← hcontents, ← f.unplaced_attributes]
  rfl

end Exchange
end Ipp
