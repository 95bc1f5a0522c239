import Ipp.Proofs.Exchange.Replying
import Ipp.Proofs.Session.Course
import Ipp.Proofs.Session.Queueing

/-!
# What stops the first reply

Everything that can be queued has an encoding: the builders refuse what has none, and whatever is copied or
demoted was read from a request or queued before. On an output that does not fail the first reply is
stopped only where nothing is queued for the operation group, or where an attribute is too long.
-/

namespace Ipp

open Calls

namespace Exchange

/-! ## Drafts -/

/-- The reply has not been sent, no file stands in for it, and all that it may contain can be written. -/
structure Draft (root : String) (e : Exchange) : Prop where
  channel : e.channel.Open
  rooted : e.root = root
  request : ∀ a ∈ e.request, a.IsRead
  queue : e.queue.Encodable
  unsent : e.replied = false
  fileless : e.substitute = none

/-- The attribute is queued in some group, or is left in the request and swept into the reply. -/
def Carries (e : Exchange) (a : Attribute) : Prop :=
  (∃ g, a ∈ e.queue.attributes g) ∨ a ∈ e.request ∧ isSwept a = true

variable {root : String} {e : Exchange}

-- What the swept queue contains, the exchange carries, be it in another place.
theorem carries_of_mem_sweep {g : Group} {a : Attribute} (h : a ∈ e.sweep.queue.attributes g) :
    ∃ b, e.Carries b ∧ (a = b ∨ a = b.unsupported) := by
  rw [sweep_eq, Queue.attributes_refuse] at h
  rcases List.mem_append.mp h with h | h
  · exact ⟨a, .inl ⟨g, h⟩, .inl rfl⟩
  · split at h
    · obtain ⟨b, hb, rfl⟩ := List.mem_map.mp h
      exact ⟨b, .inr (List.mem_filter.mp hb), .inr rfl⟩
    · cases h

theorem mem_sweep_of_carries {a : Attribute} (h : e.Carries a) :
    ∃ g, a ∈ e.sweep.queue.attributes g ∨ a.unsupported ∈ e.sweep.queue.attributes g := by
  rw [sweep_eq]
  simp only [Queue.attributes_refuse]
  rcases h with ⟨g, hqueued⟩ | hleft
  · exact ⟨g, .inl (List.mem_append_left _ hqueued)⟩
  · refine ⟨.unsupported, .inr (List.mem_append_right _ ?_)⟩
    rw [if_pos rfl]
    exact List.mem_map_of_mem (List.mem_filter.mpr hleft)

theorem Draft.encodable_sweep (h : e.Draft root) : e.sweep.queue.Encodable := by
  intro g a ha
  obtain ⟨b, hb, hsame⟩ := carries_of_mem_sweep ha
  have hencodable : b.Encodable := by
    rcases hb with ⟨g', hqueued⟩ | ⟨hleft, -⟩
    · exact h.queue g' b hqueued
    · exact (h.request b hleft).encodable
  rcases hsame with rfl | rfl
  · exact hencodable
  · exact hencodable.placed .unsupported b.block

/-- A first reply from a draft is stopped where the operation group is empty, or where it carries what is
too long. -/
theorem Draft.sendReply (h : e.Draft root) (header : Bool) :
    match Exchange.sendReply header e with
    | .ok () _ => e.queue.operation ≠ [] ∧ ∀ a, e.Carries a → ¬a.IsTooLong root
    | .error fault _ =>
      e.queue.operation = [] ∧ fault = .noOperationAttributes ∨
        e.queue.operation ≠ [] ∧ ∃ a, e.Carries a ∧ a.IsTooLong root ∧ fault = .valueTooLong a.name := by
  by_cases hoperation : e.queue.operation = []
  · have hempty : e.sweep.queue.operation.isEmpty = true := by
      rw [(sweep_sifts e).operation, hoperation]
      rfl
    rw [sendReply_of_queue h.unsent h.fileless, if_pos hempty]
    exact .inl ⟨hoperation, rfl⟩
  have hswept : e.sweep.queue.operation ≠ [] := by
    rw [(sweep_sifts e).operation]
    exact hoperation
  obtain ⟨c, -, heq⟩ := sendReply_of_open h.channel h.unsent h.fileless hswept header
  have hencoded := h.encodable_sweep.fault_encodeReply e.root e.header e.status
  rw [heq]
  cases hfault : (encodeReply e.root e.header e.status e.sweep.queue).fault with
  | none =>
    rw [hfault, h.rooted] at hencoded
    refine ⟨hoperation, fun a ha hlong => ?_⟩
    obtain ⟨g, hmem | hmem⟩ := mem_sweep_of_carries ha
    · exact hencoded g a hmem hlong
    · exact hencoded g a.unsupported hmem hlong
  | some fault =>
    rw [hfault, h.rooted] at hencoded
    obtain ⟨g, a, ha, hlong, hname⟩ := hencoded
    obtain ⟨b, hb, rfl | rfl⟩ := carries_of_mem_sweep ha
    · exact .inr ⟨hoperation, a, hb, hlong, hname⟩
    · exact .inr ⟨hoperation, b, hb, hlong, hname⟩

end Exchange

/-! ## Calls before the reply -/

/-- The call neither sends a reply nor names a file for it, and the caller copies and demotes only what it
has been handed or has seen. -/
def Call.Drafts (seen : List Attribute) : Call → Prop
  | .sendReply _ | .replyFromFile _ => False
  | .demote (.made a) | .addCopy _ (.made a) => a ∈ seen
  | _ => True

theorem Call.Drafts.replies {call : Call} {seen : List Attribute} (h : call.Drafts seen) :
    call.replies = false := by
  cases call with
  | sendReply | replyFromFile => exact h.elim
  | _ => rfl

/-- The session is reached from the exchange `e` by calls before the reply. All along the caller looks at
attributes that are in the request or in the queue then, and may copy and demote them later: these are
`seen`. -/
inductive Drafting (e : Exchange) : Session → List Attribute → Prop
  | opened : Drafting e { exchange := e } []
  | sees {s : Session} {seen : List Attribute} {a : Attribute} (drafting : Drafting e s seen)
    (present : a ∈ s.exchange.request ∨ ∃ g, a ∈ s.exchange.queue.attributes g) :
    Drafting e s (a :: seen)
  | calls {s : Session} {seen : List Attribute} {call : Call} (drafting : Drafting e s seen)
    (drafts : call.Drafts seen) : Drafting e (s.step call).2 seen

theorem Drafting.play {e : Exchange} {s : Session} {seen : List Attribute} {calls : List Call}
    (h : Drafting e s seen) (hcalls : ∀ call ∈ calls, call.Drafts seen) :
    Drafting e (s.play calls).2 seen := by
  induction calls generalizing s with
  | nil => exact h
  | cons call calls ih =>
    exact ih (h.calls (hcalls call List.mem_cons_self)) fun call' hc => hcalls call' (List.mem_cons_of_mem _ hc)

namespace Session

/-- The exchange is a draft, and all that the caller may copy can be written. -/
structure Draft (root : String) (seen : List Attribute) (s : Session) : Prop where
  exchange : s.exchange.Draft root
  held : ∀ a ∈ s.held, a.Encodable
  seen : ∀ a ∈ seen, a.Encodable

theorem Draft.sees {root : String} {seen : List Attribute} {s : Session} (h : s.Draft root seen)
    {a : Attribute} (ha : a ∈ s.exchange.request ∨ ∃ g, a ∈ s.exchange.queue.attributes g) :
    s.Draft root (a :: seen) where
  exchange := h.exchange
  held := h.held
  seen := by
    intro b hb
    rcases List.mem_cons.mp hb with rfl | hb
    · rcases ha with hleft | ⟨g, hqueued⟩
      · exact (h.exchange.request b hleft).encodable
      · exact h.exchange.queue g b hqueued
    · exact h.seen b hb

theorem Draft.step {root : String} {seen : List Attribute} {s : Session} (h : s.Draft root seen)
    {call : Call} (hcall : call.Drafts seen) : (s.step call).2.Draft root seen := by
  have hrequest : ∀ a ∈ s.exchange.request, a.Encodable := fun a ha => (h.exchange.request a ha).encodable
  have hhands : call.HandsOver Attribute.Encodable := by
    unfold Call.HandsOver
    split
    · exact h.seen _ hcall
    · exact h.seen _ hcall
    · trivial
  have happends := appends_perform Attribute.portable_encodable hhands hcall.replies hrequest h.held
  have hqueue := h.exchange.queue.extends happends.queue
  have hfile := happends.file.trans h.exchange.fileless
  rw [step_eq]
  refine ⟨?_, fun a ha => ?_, h.seen⟩
  · rcases perform_cases call s with ⟨-, hparses⟩ | hworks | ⟨header, rfl, -⟩
    · have hrest := hparses.rest
      refine ⟨h.exchange.channel.of_reads hparses.reads, ?_, hparses.request h.exchange.request, hqueue, ?_,
        hfile⟩
      · rw [hrest]
        exact h.exchange.rooted
      · rw [hrest]
        exact h.exchange.unsent
    · exact ⟨h.exchange.channel.of_reads hworks.reads, hworks.root.trans h.exchange.rooted,
        fun a ha => h.exchange.request a (hworks.request.subset ha), hqueue,
        hworks.replied.trans h.exchange.unsent, hfile⟩
    · exact hcall.elim
  · rcases held_perform ha with hheld | hleft
    · exact h.held a hheld
    · exact hrequest a hleft

theorem draft_of_drafting {config : Config} {source : Source} {sink : Sink} (hsteady : sink.Steady)
    {declared : Option Nat} {s : Session} {seen : List Attribute}
    (h : Drafting (.opened config source sink declared) s seen) : s.Draft config.root seen := by
  induction h with
  | opened =>
    refine ⟨⟨Channel.open_opened source hsteady declared _, rfl, nofun, fun g a ha => ?_, rfl, rfl⟩, nofun,
      nofun⟩
    cases g <;> cases ha
  | sees _ hpresent ih => exact ih.sees hpresent
  | calls _ hdrafts ih => exact ih.step hdrafts

/-! ## After the reply -/

-- Whether it succeeds or not, the first reply is the only one.
theorem replied_sendReply (header : Bool) (e : Exchange) :
    (final (e.sendReply header)).replied = true := by
  by_cases hreplied : e.replied = true
  · rw [Exchange.final_sendReply_of_replied hreplied]
    exact hreplied
  · obtain ⟨e', x, -, -, heq⟩ := Exchange.final_sendReply (Bool.eq_false_iff.mpr hreplied) header
    rw [heq]

theorem replied_play {s : Session} (h : s.exchange.replied = true) (calls : List Call) :
    (s.play calls).2.exchange.replied = true := by
  refine play_keeps (P := fun e => e.replied = true) (fun call _ e e' hmoves hreplied => ?_) h
  cases hmoves with
  | parses _ hparses =>
    rw [hparses.rest]
    exact hreplied
  | works hworks => exact hworks.replied.trans hreplied
  | replies header heq =>
    rw [heq]
    exact replied_sendReply header e

theorem step_sendReply_of_replied {s : Session} (h : s.exchange.replied = true) (header : Bool) :
    s.step (.sendReply header) = (s.observe (.error .replyAlreadySent) (some s.counts), s) := by
  rw [step_sendReply, Exchange.sendReply_of_replied h]

end Session

/-- Whatever was parsed, claimed, classified, built, copied and demoted before, on an output that does not
fail the first reply has one of three outcomes: there is no operation attribute; or there are some and what
is queued or swept has a name or a final value that is too long; or it is sent. Every later one is refused,
and changes nothing. -/
theorem first_reply_outcomes (config : Config) (source : Source) {sink : Sink} (hsteady : sink.Steady)
    (declared : Option Nat) {s : Session} {seen : List Attribute}
    (h : Drafting (.opened config source sink declared) s seen) (header : Bool) {o : Session.Observation}
    {s' : Session} (hsent : s.step (.sendReply header) = (o, s')) :
    (o.answer = .error .noOperationAttributes ↔ s.exchange.queue.operation = []) ∧
    ((∃ name, o.answer = .error (.valueTooLong name)) ↔
      s.exchange.queue.operation ≠ [] ∧ ∃ a, s.exchange.Carries a ∧ a.IsTooLong config.root) ∧
    (o.answer = .ok .done ↔
      s.exchange.queue.operation ≠ [] ∧ ∀ a, s.exchange.Carries a → ¬a.IsTooLong config.root) ∧
    (∀ fault, o.answer = .error fault → fault = .noOperationAttributes ∨
      ∃ a, s.exchange.Carries a ∧ a.IsTooLong config.root ∧ fault = .valueTooLong a.name) ∧
    ∀ (calls : List Call) (header' : Bool) (later : Session), later = (s'.play calls).2 →
      later.step (.sendReply header') =
        (later.observe (.error .replyAlreadySent) (some later.counts), later) := by
  have houtcome := (Session.draft_of_drafting hsteady h).exchange.sendReply header
  have hreplied := Session.replied_sendReply header s.exchange
  rw [Session.step_sendReply] at hsent
  have hlater : ∀ (calls : List Call) (header' : Bool) (later : Session), s'.exchange.replied = true →
      later = (s'.play calls).2 → later.step (.sendReply header') =
        (later.observe (.error .replyAlreadySent) (some later.counts), later) := by
    rintro calls header' later hdone rfl
    exact Session.step_sendReply_of_replied (Session.replied_play hdone calls) header'
  cases hs : s.exchange.sendReply header with
  | ok _ e =>
    rw [hs] at houtcome hreplied hsent
    cases hsent
    obtain ⟨hoperation, hfits⟩ := houtcome
    refine ⟨iff_of_false nofun hoperation, iff_of_false nofun ?_, iff_of_true rfl ⟨hoperation, hfits⟩, nofun,
      fun calls header' later => hlater calls header' later hreplied⟩
    rintro ⟨-, a, ha, hlong⟩
    exact hfits a ha hlong
  | error fault e =>
    rw [hs] at houtcome hreplied hsent
    cases hsent
    refine ⟨?_, ?_, iff_of_false nofun ?_, ?_,
      fun calls header' later => hlater calls header' later hreplied⟩
    all_goals rcases houtcome with ⟨hnone, rfl⟩ | ⟨hoperation, a, ha, hlong, rfl⟩
    · exact iff_of_true rfl hnone
    · exact iff_of_false nofun hoperation
    · exact iff_of_false nofun fun h => h.1 hnone
    · exact iff_of_true ⟨a.name, rfl⟩ ⟨hoperation, a, ha, hlong⟩
    · exact fun h => h.1 hnone
    · exact fun h => h.2 a ha hlong
    · rintro _ ⟨⟩
      exact .inl rfl
    · rintro _ ⟨⟩
      exact .inr ⟨a, ha, hlong, rfl⟩

/-- A session that has read a request. -/
def copyingSession : Session :=
  (Session.step .parse { exchange := .opened {} { rest := pipelined } {} none }).2

/-- An attribute of that request. -/
def copiedCharset : Attribute :=
  { name := "attributes-charset", group := .operation, tag := .charset, values := [.string "utf-8"]
    block := 1 }

/-- The session after calls that copy it, claim and demote it, and queue more; one of them fails. -/
def copyingDraft : Session :=
  (copyingSession.play
    [.addCopy .job (.made copiedCharset), .claim .operation .charset "attributes-charset",
     .demote (.held 0), .addInteger .printer .keyword "copies" 1, .addStandard]).2

theorem drafting_copyingDraft :
    Drafting (.opened {} { rest := pipelined } {} none) copyingDraft [copiedCharset] := by
  have hparsed : Drafting (.opened {} { rest := pipelined } {} none) copyingSession [] :=
    Drafting.opened.calls trivial
  have hseen : copiedCharset ∈ copyingSession.exchange.request := by decide +kernel
  apply (hparsed.sees (.inl hseen)).play
  simp only [List.forall_mem_cons]
  exact ⟨List.mem_cons_self, trivial, trivial, trivial, trivial, List.forall_mem_nil _⟩

-- The copy and what was demoted are sent, and nothing can be sent behind them.
theorem copyingDraft_first_reply :
    (copyingDraft.step (.sendReply false)).1.answer = .ok .done ∧
    (((copyingDraft.step (.sendReply false)).2.play [.parse, .addStandard]).2.step
      (.sendReply true)).1.answer = .error .replyAlreadySent := by
  have hsteady : ({} : Sink).Steady := by decide
  have hstep : copyingDraft.step (.sendReply false) =
      ((copyingDraft.step (.sendReply false)).1, (copyingDraft.step (.sendReply false)).2) :=
    (Prod.eta _).symm
  obtain ⟨-, -, hdone, -, hlater⟩ := first_reply_outcomes {} { rest := pipelined } hsteady none
    drafting_copyingDraft false hstep
  have hqueued : ∀ g ∈ replyOrder, ∀ a ∈ copyingDraft.exchange.queue.attributes g,
      ¬a.IsTooLong ({} : Config).root := by
    decide +kernel
  have hleft : ∀ a ∈ copyingDraft.exchange.request, ¬a.IsTooLong ({} : Config).root := by decide +kernel
  refine ⟨hdone.mpr ⟨by decide +kernel, fun a ha => ?_⟩, ?_⟩
  · rcases ha with ⟨g, ha⟩ | ⟨ha, -⟩
    · exact hqueued g (mem_replyOrder g) a ha
    · exact hleft a ha
  · rw [hlater [.parse, .addStandard] true _ rfl]
    rfl

end Ipp
