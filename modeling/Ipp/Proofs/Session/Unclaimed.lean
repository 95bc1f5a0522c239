import Ipp.Proofs.Reply.Echo
import Ipp.Proofs.Session.Steps

/-!
# What nobody has claimed

Whatever calls are made behind the request, what is left of it stands in the order in which it was
received, and the reply ends with its operation and job attributes, each in its echoed form.
-/

namespace Ipp

open Calls

namespace Exchange

/-- The attribute is sent back when nobody claims it. -/
def isUnclaimed (p : PlacedForm) : Bool :=
  isSwept p.toAttribute

-- The reply ends with what the sweep has queued.
theorem encodeGroup_sweep {e : Exchange} {root : String} {left : List PlacedForm}
    (hleft : e.request = left.map PlacedForm.toAttribute) (hf : ∀ p ∈ left, p.form.WellFormed)
    (hsome : ∃ p ∈ left, isUnclaimed p = true)
    (h : (encodeGroup root .unsupported (e.sweep.queue.list .unsupported)).fault = none) :
    ∃ earlier, (encodeGroup root .unsupported (e.sweep.queue.list .unsupported)).bytes =
      Group.unsupported.delimiter ::
        (earlier ++ (left.filter isUnclaimed).flatMap fun p => (p.form.echoed root).bytes) := by
  have hlist : e.sweep.queue.list .unsupported = e.queue.list .unsupported ++
      (left.filter isUnclaimed).map fun p => .attribute p.toAttribute.unsupported := by
    rw [list_sweep, hleft, List.filter_map, List.map_map]
    rfl
  have hfilled : ¬(e.sweep.queue.list .unsupported).isEmpty = true := by
    obtain ⟨p, hp, hunclaimed⟩ := hsome
    have hlast : .attribute p.toAttribute.unsupported ∈ e.sweep.queue.list .unsupported := by
      rw [hlist]
      exact List.mem_append_right _ (List.mem_map_of_mem (List.mem_filter.mpr ⟨hp, hunclaimed⟩))
    rw [List.isEmpty_iff]
    exact List.ne_nil_of_mem hlast
  rw [encodeGroup, if_neg hfilled] at h ⊢
  obtain ⟨-, hentries, hbytes⟩ := Encoding.of_append h
  rw [hlist] at hentries hbytes
  obtain ⟨hlast, earlier, hearlier⟩ := encodeEntries_append hentries
  refine ⟨earlier, ?_⟩
  rw [hlist, hbytes, hearlier,
    encodeEntries_unsupported (fun p hp => hf p (List.mem_filter.mp hp).1) hlast]
  rfl

end Exchange

namespace Session

-- As long as the reply is not sent, calls that do not parse only work on the exchange.
theorem works_play {calls : List Call} (hcalls : ∀ call ∈ calls, call.parses = false) {s : Session}
    (h : (s.play calls).2.exchange.replied = false) :
    s.exchange.Works (s.play calls).2.exchange := by
  suffices hkeeps : (s.play calls).2.exchange.replied = false →
      s.exchange.Works (s.play calls).2.exchange from hkeeps h
  refine play_keeps (P := fun e => e.replied = false → s.exchange.Works e)
    (fun call hcall e e' hmoves hworks hreplied => ?_) fun _ => .refl _
  cases hmoves with
  | parses hparses _ =>
    rw [hcalls call hcall] at hparses
    cases hparses
  | works hstep => exact (hworks (hstep.replied.symm.trans hreplied)).trans hstep
  | replies header heq =>
    -- The reply was sent before, or is now, which contradicts that it is not.
    by_cases hbefore : e.replied = true
    · rw [heq, Exchange.final_sendReply_of_replied hbefore] at hreplied
      cases hreplied.symm.trans hbefore
    · obtain ⟨e'', x, -, -, hfinal⟩ :=
        Exchange.final_sendReply (Bool.eq_false_iff.mpr hbefore) header
      rw [heq, hfinal] at hreplied
      cases hreplied

/-- A reply that is sent behind any calls carries, at the end of its unsupported group, every operation and
job attribute that they have left in the request, in the order in which it was received: with the tags and
bytes that it was received with, but for those that are not kept as bytes. -/
theorem sendReply_echoes (config : Config) (source : Source) (sink : Sink) (declared : Option Nat)
    {e : Exchange} (hparse : Exchange.parse (.opened config source sink declared) = .ok () e)
    {calls : List Call} (hcalls : ∀ call ∈ calls, call.parses = false) {s : Session}
    (hs : s = (play calls { exchange := e }).2) (hfile : s.exchange.substitute = none)
    {header : Bool} {e' : Exchange} (hsent : s.exchange.sendReply header = .ok () e') :
    ∃ (f : RequestForm) (document : List UInt8) (left : List PlacedForm),
      f.WellFormed ∧ source.rest = f.bytes ++ document ∧ left.Sublist f.placed ∧
      s.exchange.request = left.map PlacedForm.toAttribute ∧
      e'.channel.sink.bytes = sink.bytes ++ (Exchange.replyPreamble header ++
        (encodeReplyHeader f.header s.exchange.status ++
          ((replyOrder.flatMap fun g =>
            (encodeGroup config.root g (s.exchange.sweep.queue.list g)).bytes) ++
              [endOfAttributes]))) ∧
      ((∃ p ∈ left, Exchange.isUnclaimed p = true) → ∃ earlier,
        (encodeGroup config.root .unsupported (s.exchange.sweep.queue.list .unsupported)).bytes =
          Group.unsupported.delimiter ::
            (earlier ++ (left.filter Exchange.isUnclaimed).flatMap fun p =>
              (p.form.echoed config.root).bytes)) ∧
      ∀ p ∈ left, p.form.IsPlain → p.form.echoed config.root = p.form := by
  obtain ⟨f, document, hf, hrest, hheader, hrequest⟩ := Exchange.exists_form_of_parse hparse
  have hparses := Exchange.keeps_parse.ok hparse
  -- The reply was not sent before, so that the calls have only worked on the exchange.
  obtain ⟨hreplied, hfault, c, rfl, hbytes⟩ := Exchange.sendReply_ok hfile hsent
  have hworks : e.Works s.exchange := by
    subst hs
    exact works_play hcalls hreplied
  have hroot : s.exchange.root = config.root := by
    rw [hworks.root, hparses.rest]
    rfl
  have hproduced : s.exchange.channel.produced = sink.bytes := by
    rw [Channel.produced_of_reads hworks.reads, hparses.produced]
  have hsub : s.exchange.request.Sublist (f.placed.map PlacedForm.toAttribute) := by
    rw [← f.attributes_eq_placed]
    rw [← hrequest]
    exact hworks.request
  obtain ⟨left, hleft, hmap⟩ := List.sublist_map_iff.mp hsub
  rw [hroot, hworks.header, hheader] at hfault hbytes
  obtain ⟨hgroups, hencoded⟩ := encodeReply_bytes hfault
  refine ⟨f, document, left, hf, hrest, hleft, hmap, ?_, fun hsome => ?_, fun p _ hp =>
    hp.echoed config.root⟩
  · rw [hproduced, hencoded] at hbytes
    exact hbytes
  · exact Exchange.encodeGroup_sweep hmap (fun p hp => hf.placed (hleft.subset hp)) hsome
      (hgroups .unsupported (by decide))

end Session

/-- Attributes that do not come back as they were received: a name that is no text, a flag that is two, and
a URI that starts with a slash. -/
def oddities : List AttributeForm :=
  [⟨.keyword, [0xFF], [120], []⟩, ⟨.boolean, [98], [2], [(.boolean, [3])]⟩, ⟨.uri, [117], [47], []⟩]

/-- A request that holds them behind an attribute that is claimed. -/
def oddInquiry : RequestForm :=
  { header := { major := 1, minor := 1, operation := 0x000B, requestId := 7 }
    groups := [⟨.operation, ⟨.keyword, [97], [120], []⟩ :: oddities⟩] }

def oddStart : Exchange :=
  final (Exchange.parse (.opened {} { rest := oddInquiry.bytes } {} none))

def oddCalls : List Call :=
  [.claim .operation .keyword "a", .addStandard]

def oddEnd : Session :=
  (Session.play oddCalls { exchange := oddStart }).2

def oddSent : Exchange :=
  final (oddEnd.exchange.sendReply false)

theorem oddSent_echoes :
    oddEnd.exchange.sendReply false = .ok () oddSent ∧
    ∃ (left : List PlacedForm) (earlier : List UInt8),
      left.map PlacedForm.toAttribute = oddEnd.exchange.request ∧
      left.length = oddities.length ∧
      (encodeGroup ({} : Config).root .unsupported
        (oddEnd.exchange.sweep.queue.list .unsupported)).bytes =
        Group.unsupported.delimiter ::
          (earlier ++ (left.filter Exchange.isUnclaimed).flatMap fun p =>
            (p.form.echoed ({} : Config).root).bytes) := by
  have hreadable : succeeded (Exchange.parse (.opened {} { rest := oddInquiry.bytes } {} none)) = true := by
    decide +kernel
  have hread : Exchange.parse (.opened {} { rest := oddInquiry.bytes } {} none) = .ok () oddStart :=
    eq_ok_of_succeeded hreadable
  have hsendable : succeeded (oddEnd.exchange.sendReply false) = true := by decide +kernel
  have hsent : oddEnd.exchange.sendReply false = .ok () oddSent := eq_ok_of_succeeded hsendable
  have hcalls : ∀ call ∈ oddCalls, call.parses = false := by decide
  have hfile : oddEnd.exchange.substitute = none := by decide +kernel
  have hend : oddEnd = (Session.play oddCalls { exchange := oddStart }).2 := rfl
  obtain ⟨f, document, left, -, -, -, hrequest, -, hechoes, -⟩ :=
    Session.sendReply_echoes {} { rest := oddInquiry.bytes } {} none hread hcalls hend hfile hsent
  have hlength : left.length = oddities.length := by
    rw [← List.length_map PlacedForm.toAttribute, ← hrequest]
    decide +kernel
  have hswept : oddEnd.exchange.request.any Exchange.isSwept = true := by decide +kernel
  have hsome : ∃ p ∈ left, Exchange.isUnclaimed p = true := by
    rw [hrequest, List.any_map, List.any_eq_true] at hswept
    exact hswept
  obtain ⟨earlier, hbytes⟩ := hechoes hsome
  exact ⟨hsent, left, earlier, hrequest.symm, hlength, hbytes⟩

-- Nobody has claimed them, and none of them is in the reply as it was received.
theorem oddSent_alters :
    succeeded (Exchange.parse (.opened {} { rest := oddInquiry.bytes } {} none)) = true ∧
    oddEnd.exchange.request = oddities.map (·.toAttribute .operation 1) ∧
    succeeded (oddEnd.exchange.sendReply false) = true ∧
    ∀ f ∈ oddities, ¬f.bytes <:+: oddSent.channel.sink.bytes ∧
      (f.echoed ({} : Config).root).bytes <:+: oddSent.channel.sink.bytes := by
  decide +kernel

end Ipp
