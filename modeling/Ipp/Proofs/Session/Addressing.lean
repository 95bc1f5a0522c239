import Ipp.Proofs.Exchange.JobNumbers
import Ipp.Proofs.Request.Acceptance
import Ipp.Proofs.Session.Drafting
import Ipp.Proofs.Uri.Site

/-!
# URIs that lead back

The URIs of jobs and printers are made from templates under the root at which an engine is served. Sent
back in a request they name the same job or printer, on the same host and port
(`handed_out_uris_lead_back`).
-/

namespace Ipp

open Calls

/-! ## Templates -/

-- The braces at the end of a pattern are filled.
theorem fillFirst_append {text front : List Char} (hfront : '\x7b' ∉ front) :
    fillFirst text (front ++ ['\x7b', '\x7d']) = front ++ text := by
  induction front with
  | nil => simp [fillFirst]
  | cons c front ih =>
    rw [List.mem_cons, not_or] at hfront
    rw [List.cons_append, fillFirst, ih hfront.2, List.cons_append]
    exact fun _ heq => absurd heq.symm hfront.1

theorem Value.fill_append (v : Value) (front : String) (hfront : '\x7b' ∉ front.toList) :
    v.fill (front ++ "\x7b\x7d") = front ++ v.describe := by
  have hpattern : (front ++ "\x7b\x7d").toList = front.toList ++ ['\x7b', '\x7d'] := String.toList_append
  rw [fill, hpattern, fillFirst_append hfront, ← String.toList_inj]
  simp

/-- An attribute whose value is put into a pattern when the reply is written. -/
def Attribute.ofTemplate (g : Group) (name pattern : String) (arg : Value) : Attribute :=
  { name, group := g, tag := .uri, values := [arg], template := some pattern }

/-- It is written as one item, unless its name or its text is too long. -/
theorem Attribute.encode_ofTemplate (root : String) (g : Group) (name pattern : String) (arg : Value) :
    ((ofTemplate g name pattern arg).encode root).Yields
      (ItemForm.mk .uri (Text.utf8 name) (Text.utf8 (root ++ arg.fill pattern))).bytes (.valueTooLong name)
      (Wire.longest < (Text.utf8 name).length ∨
        Wire.longest < (Text.utf8 (root ++ arg.fill pattern)).length) := by
  have hpayload : (ofTemplate g name pattern arg).payload root arg =
      .ok (.uri, Text.utf8 (root ++ arg.fill pattern)) := rfl
  have hvalue : ((ofTemplate g name pattern arg).encodeValue root (Text.utf8 name) arg).Yields _ _ _ :=
    encodeValue_yields hpayload
  have hencode : (ofTemplate g name pattern arg).encode root =
      if Wire.longest < (Text.utf8 name).length then .stopped (.valueTooLong name)
      else (ofTemplate g name pattern arg).encodeValue root (Text.utf8 name) arg ++ {} := rfl
  rw [hencode]
  by_cases hname : Wire.longest < (Text.utf8 name).length
  · rw [if_pos hname]
    exact ⟨fun hfits => absurd (.inl hname) hfits, fun _ => rfl⟩
  · rw [if_neg hname]
    have hnothing : ({} : Encoding).Yields [] (.valueTooLong name) False := ⟨fun _ => rfl, False.elim⟩
    have hwhole := hvalue.append hnothing
    rw [List.append_nil] at hwhole
    exact hwhole.congr (by simp [hname])

/-! ## Replies -/

theorem Queue.of_mem_attributes_insert {q : Queue} {a b : Attribute} {g : Group}
    (hb : b ∈ (q.insert a).attributes g) : b ∈ q.attributes g ∨ b = a :=
  (q.extends_insert (P := (· = a)) rfl).of_mem hb

section

variable {root : String} {g : Group}

/-- Every attribute that is queued is written somewhere in a reply that is not stopped. -/
theorem encode_infix_encodeEntries {entries : List Entry} (h : (encodeEntries root g entries).fault = none)
    {a : Attribute} (ha : .attribute a ∈ entries) :
    (a.encode root).bytes <:+: (encodeEntries root g entries).bytes := by
  obtain ⟨earlier, later, rfl⟩ := List.append_of_mem ha
  obtain ⟨hbehind, front, hbytes⟩ := encodeEntries_append h
  obtain ⟨-, -, hfirst⟩ := Encoding.of_append hbehind
  rw [hbytes]
  exact ⟨front, _, by rw [encodeEntries, hfirst, List.append_assoc]⟩

theorem encode_infix_encodeReply {header : Header} {status : Status} {q : Queue}
    (h : (encodeReply root header status q).fault = none) {a : Attribute} (ha : .attribute a ∈ q.list g) :
    (a.encode root).bytes <:+: (encodeReply root header status q).bytes := by
  obtain ⟨hgroups, hbytes⟩ := encodeReply_bytes h
  have hgroup : (a.encode root).bytes <:+: (encodeGroup root g (q.list g)).bytes := by
    have hfault := hgroups g (mem_replyOrder g)
    have hfilled : ¬(q.list g).isEmpty = true := by
      rw [List.isEmpty_iff]
      exact List.ne_nil_of_mem ha
    rw [encodeGroup, if_neg hfilled] at hfault ⊢
    obtain ⟨-, hentries, hbytes⟩ := Encoding.of_append hfault
    rw [hbytes]
    exact List.infix_cons (encode_infix_encodeEntries hentries ha)
  have hall : (encodeGroup root g (q.list g)).bytes <:+:
      replyOrder.flatMap fun g => (encodeGroup root g (q.list g)).bytes :=
    List.infix_of_mem_flatten (List.mem_map_of_mem (mem_replyOrder g))
  rw [hbytes]
  exact (hgroup.trans hall).trans (List.infix_append' _ _ _)

end

/-! ## Sessions -/

namespace Session

-- The builder of templates takes integers and texts.
theorem exchange_step_addTemplate {arg : Value} (harg : Queue.isTemplateArgument arg = true) (g : Group)
    (name pattern : String) (s : Session) :
    (s.step (.addTemplate g .uri name pattern arg)).2.exchange =
      { s.exchange with queue := s.exchange.queue.insert (.ofTemplate g name pattern arg) } := by
  have hqueued : Queue.addTemplate g .uri name pattern arg s.exchange.queue =
      .ok (s.exchange.queue.insert (.ofTemplate g name pattern arg)) := by
    have hnone : [arg].find? (!Queue.isTemplateArgument ·) = none := by simp [harg]
    unfold Queue.addTemplate Queue.addTemplates
    rw [hnone]
    rfl
  have hfinal := exchange_final_onExchange
    (Exchange.queueing (Queue.addTemplate g .uri name pattern arg)) (fun _ => .done) s
  rw [Exchange.queueing, hqueued] at hfinal
  rw [step_eq]
  exact hfinal

theorem root_sendReply (header : Bool) (e : Exchange) : (final (e.sendReply header)).root = e.root := by
  by_cases hreplied : e.replied = true
  · rw [Exchange.final_sendReply_of_replied hreplied]
  · obtain ⟨e', x, hsifts, -, heq⟩ := Exchange.final_sendReply (Bool.eq_false_iff.mpr hreplied) header
    rw [heq]
    show e'.root = e.root
    rw [hsifts.rest]

/-- No call changes the root. -/
theorem root_play (calls : List Call) (s : Session) : (s.play calls).2.exchange.root = s.exchange.root := by
  refine play_keeps (P := fun e => e.root = s.exchange.root) (fun call _ e e' hmoves hroot => ?_) rfl
  cases hmoves with
  | parses _ hparses =>
    rw [hparses.rest]
    exact hroot
  | works hworks => exact hworks.root.trans hroot
  | replies header heq =>
    rw [heq, root_sendReply]
    exact hroot

theorem substitute_play {calls : List Call} (hcalls : ∀ call ∈ calls, call.replies = false)
    (s : Session) : (s.play calls).2.exchange.substitute = s.exchange.substitute :=
  play_induction (P := fun e => e.substitute = s.exchange.substitute)
    (fun call hc t ht => (substitute_perform (hcalls call hc) t).trans ht) rfl

-- What was queued under a root and goes out in a reply is what is encoded under that root.
theorem encode_infix_sent {calls : List Call} (hcalls : ∀ call ∈ calls, call.replies = false)
    {s t : Session} (hs : s = (play calls t).2) (hfile : t.exchange.substitute = none) {root : String}
    (hroot : t.exchange.root = root) {header : Bool}
    (hsent : (s.step (.sendReply header)).1.answer = .ok .done) {g : Group} {a : Attribute}
    (ha : .attribute a ∈ s.exchange.queue.list g) :
    ∃ reply, (s.step (.sendReply header)).2.exchange.channel.sink.bytes =
        s.exchange.channel.produced ++ reply ∧
      (a.encode root).fault = none ∧ (a.encode root).bytes <:+: reply := by
  have hrooted : s.exchange.root = root := by
    rw [hs, root_play, hroot]
  have hnone : s.exchange.substitute = none := by
    rw [hs, substitute_play hcalls, hfile]
  rw [step_sendReply] at hsent ⊢
  cases hr : s.exchange.sendReply header with
  | error fault e =>
    rw [hr] at hsent
    cases hsent
  | ok _ e =>
    obtain ⟨-, hfault, c, rfl, hbytes⟩ := Exchange.sendReply_ok hnone hr
    have hswept : .attribute a ∈ s.exchange.sweep.queue.list g := by
      rw [Exchange.sweep_eq, Queue.list_refuse]
      exact List.mem_append_left _ ha
    have hgroup := (encodeReply_bytes hfault).1 g (mem_replyOrder g)
    have hwritten := encode_infix_encodeReply hfault hswept
    have hreply : (a.encode s.exchange.root).bytes <:+: Exchange.replyPreamble header ++
        (encodeReply s.exchange.root s.exchange.header s.exchange.status s.exchange.sweep.queue).bytes :=
      hwritten.trans (List.suffix_append _ _).isInfix
    refine ⟨_, hbytes, ?_⟩
    rw [← hrooted]
    exact ⟨fault_encode_of_encodeGroup hgroup hswept, hreply⟩

-- What is queued stays queued.
theorem mem_queue_play {calls : List Call} {g : Group} {name pattern : String} {arg : Value}
    (harg : Queue.isTemplateArgument arg = true) (hmem : Call.addTemplate g .uri name pattern arg ∈ calls)
    (s : Session) :
    .attribute (.ofTemplate g name pattern arg) ∈ (s.play calls).2.exchange.queue.list g := by
  obtain ⟨before, after, rfl⟩ := List.append_of_mem hmem
  let queued := ((s.play before).2.step (.addTemplate g .uri name pattern arg)).2
  obtain ⟨more, hlist, -⟩ := extends_play after queued g
  rw [play_append]
  refine hlist ▸ List.mem_append_left more ?_
  rw [exchange_step_addTemplate harg, Queue.insert, Queue.list_append]
  simp [Attribute.ofTemplate]

/-- A draft that has read nothing is sent, if every attribute in its queue is written. -/
theorem Draft.answer_sendReply {root : String} {seen : List Attribute} {s : Session} (h : s.Draft root seen)
    (hrequest : s.exchange.request = []) (hoperation : s.exchange.queue.operation ≠ [])
    (hwritten : ∀ g, ∀ a ∈ s.exchange.queue.attributes g, (a.encode root).fault = none) (header : Bool) :
    (s.step (.sendReply header)).1.answer = .ok .done := by
  have hreply := h.exchange.sendReply header
  rw [step_sendReply]
  cases hr : s.exchange.sendReply header with
  | ok _ e => rfl
  | error fault e =>
    rw [hr] at hreply
    exfalso
    rcases hreply with ⟨hnone, -⟩ | ⟨-, a, ⟨g, hqueued⟩ | ⟨hleft, -⟩, hlong, -⟩
    · exact hoperation hnone
    · have hstopped := (h.exchange.queue g a hqueued).fault_encode_iff.mpr ⟨hlong, rfl⟩
      cases (hwritten g a hqueued).symm.trans hstopped
    · rw [hrequest] at hleft
      cases hleft

end Session

/-! ## What is handed out -/

/-- What is queued when a template is offered, and nothing else. -/
def Queue.offering (g : Group) (name pattern : String) (arg : Value) : Queue :=
  ((({} : Queue).insert (.ofText .charset "attributes-charset" "utf-8")).insert
    (.ofText .naturalLanguage "attributes-natural-language" "en")).insert (.ofTemplate g name pattern arg)

theorem Queue.fault_encode_offering {root : String} {g : Group} {name pattern : String} {arg : Value}
    (hname : (Text.utf8 name).length ≤ Wire.longest)
    (htext : (Text.utf8 (root ++ arg.fill pattern)).length ≤ Wire.longest) {g' : Group} {a : Attribute}
    (ha : a ∈ (offering g name pattern arg).attributes g') : (a.encode root).fault = none := by
  have hstandard : ∀ {tag : ValueTag} {name text : String}, tag.family = .string → tag ≠ .uri →
      (Text.utf8 name).length ≤ Wire.longest → (Text.utf8 text).length ≤ Wire.longest →
      ((Attribute.ofText tag name text).encode root).fault = none := by
    intro tag name text hfamily huri hname htext
    rw [Attribute.encode_ofText hfamily huri hname htext]
    rfl
  rcases of_mem_attributes_insert ha with ha | rfl
  · rcases of_mem_attributes_insert ha with ha | rfl
    · rcases of_mem_attributes_insert ha with ha | rfl
      · cases g' <;> cases ha
      · exact hstandard rfl (by decide) (by decide) (by decide)
    · exact hstandard rfl (by decide) (by decide) (by decide)
  · rw [(Attribute.encode_ofTemplate root g name pattern arg).whole (by omega)]
    rfl

/-- Put into the pattern, the value goes out as a URI with this text: under whatever name and in whatever
group it was queued, the item stands in every reply that is sent from the queue; and one is sent, unless the
name or the text is too long. -/
structure HandsOut (root pattern : String) (arg : Value) (text : String) : Prop where
  written : ∀ (config : Config) (source : Source) (sink : Sink) (declared : Option Nat) (calls : List Call)
    (g : Group) (name : String) (header : Bool) (s : Session), config.root = root →
    (∀ call ∈ calls, call.replies = false) → Call.addTemplate g .uri name pattern arg ∈ calls →
    s = (Session.play calls { exchange := .opened config source sink declared }).2 →
    (s.step (.sendReply header)).1.answer = .ok .done →
    (Text.utf8 text).length ≤ Wire.longest ∧ ∃ reply,
      (s.step (.sendReply header)).2.exchange.channel.sink.bytes = s.exchange.channel.produced ++ reply ∧
        (ItemForm.mk .uri (Text.utf8 name) (Text.utf8 text)).bytes <:+: reply
  sent : ∀ (config : Config) (source : Source) (sink : Sink) (declared : Option Nat) (g : Group)
    (name : String) (header : Bool) (s : Session), config.root = root → sink.Steady →
    (Text.utf8 name).length ≤ Wire.longest → (Text.utf8 text).length ≤ Wire.longest →
    s = (Session.play [.addStandard, .addTemplate g .uri name pattern arg]
      { exchange := .opened config source sink declared }).2 →
    (s.step (.sendReply header)).1.answer = .ok .done

theorem handsOut (root pattern : String) {arg : Value} (harg : Queue.isTemplateArgument arg = true) :
    HandsOut root pattern arg (root ++ arg.fill pattern) where
  written := by
    rintro config source sink declared calls g name header s rfl hcalls hmem hs hsent
    have hqueued := Session.mem_queue_play harg hmem { exchange := .opened config source sink declared }
    rw [← hs] at hqueued
    have hroot : (Exchange.opened config source sink declared).root = config.root := rfl
    obtain ⟨reply, hbytes, hfault, hwritten⟩ := Session.encode_infix_sent hcalls hs rfl hroot hsent hqueued
    have hyields := Attribute.encode_ofTemplate config.root g name pattern arg
    have hfits : ¬(Wire.longest < (Text.utf8 name).length ∨
        Wire.longest < (Text.utf8 (config.root ++ arg.fill pattern)).length) := by
      intro hlong
      rw [hyields.stopped hlong] at hfault
      cases hfault
    rw [hyields.whole hfits] at hwritten
    exact ⟨Nat.not_lt.mp fun hlong => hfits (.inr hlong), reply, hbytes, hwritten⟩
  sent := by
    rintro config source sink declared g name header s rfl hsteady hname htext hs
    have hdrafting : Drafting (.opened config source sink declared) s [] := by
      rw [hs]
      refine Drafting.opened.play fun call hc => ?_
      simp only [List.mem_cons, List.not_mem_nil, or_false] at hc
      rcases hc with rfl | rfl <;> trivial
    have hexchange : s.exchange = { Exchange.opened config source sink declared with
        queue := .offering g name pattern arg } := by
      rw [hs]
      exact Session.exchange_step_addTemplate harg g name pattern _
    have hoperation : s.exchange.queue.operation ≠ [] := by
      rw [hexchange]
      cases g <;> exact List.cons_ne_nil _ _
    have hrequest : s.exchange.request = [] := by
      rw [hexchange]
      rfl
    have hdraft := Session.draft_of_drafting hsteady hdrafting
    refine hdraft.answer_sendReply hrequest hoperation (fun g' a ha => ?_) header
    rw [hexchange] at ha
    exact Queue.fault_encode_offering hname htext ha

/-! ## What comes back -/

/-- A request with one attribute, which is a URI and stands in the operation group. -/
def RequestForm.ofUri (header : Header) (name text : String) : RequestForm :=
  { header, groups := [⟨.operation, [⟨.uri, Text.utf8 name, Text.utf8 text, []⟩]⟩] }

/-- Sent back as the only attribute of a request, and under this name, the text is classified as `found`
says. -/
def LeadsTo (name text : String) (caps : Capabilities) (found : WellKnown → Prop) : Prop :=
  ∀ (header : Header) (document : List UInt8) (config : Config) (source : Source) (sink : Sink)
    (declared : Option Nat), (Text.utf8 text).length ≤ Wire.longest → source.Steady →
    source.rest = (RequestForm.ofUri header name text).bytes ++ document →
    (∀ n, declared = some n → (RequestForm.ofUri header name text).bytes.length ≤ n) →
    ∃ e, Exchange.parse (.opened config source sink declared) = .ok () e ∧
      found (WellKnown.classify caps e).1

-- The only attribute is filed under its field.
theorem WellKnown.classify_of_single {caps : Capabilities} {e : Exchange} {a : Attribute} {f : Field}
    {k : Content.Kind} {v : Value} {w : WellKnown} (hrequest : e.request = [a])
    (hof : Field.of? caps a = some f) (hk : f.kind? = some k) (hv : a.values = [v])
    (hw : ({} : WellKnown).file e.readDomain f v = some w) : (classify caps e).1 = w := by
  obtain ⟨r, hr, -, happlies⟩ := Field.of?_eq_some hof
  have hexamined := Field.Rule.isExamined hr happlies
  rw [classify, hrequest, List.filter_cons_of_pos hexamined, List.filter_nil, List.foldl_cons, List.foldl_nil,
    examine_of_kind hof hk, Attribute.only?_eq_some.mpr hv, Option.bind_some, hw]

theorem RequestForm.wellFormed_ofUri (header : Header) {name text : String} (hname : name ≠ "")
    (hshort : (Text.utf8 name).length ≤ Wire.longest) (htext : (Text.utf8 text).length ≤ Wire.longest) :
    (ofUri header name text).WellFormed := by
  intro g hg
  cases List.mem_singleton.mp hg
  intro a ha
  cases List.mem_singleton.mp ha
  refine ⟨fun i hi => ?_, Text.utf8_ne_nil hname, ValueTag.fits_of_string rfl _, nofun⟩
  cases List.mem_singleton.mp hi
  exact ⟨(by decide : lastDelimiter < ValueTag.uri.byte), hshort, htext⟩

theorem RequestForm.attributes_ofUri (header : Header) (name text : String) :
    (ofUri header name text).attributes =
      [{ name, group := .operation, tag := .uri, values := [.string text], block := 1 }] := by
  show [AttributeForm.toAttribute ⟨.uri, Text.utf8 name, Text.utf8 text, []⟩ .operation 1] = _
  rw [AttributeForm.toAttribute, Text.ofUtf8Lossy_utf8, Value.ofBytes_utf8 rfl]
  rfl

-- A fresh exchange reads what stands first in its input, as far as it was declared.
theorem Exchange.upcoming_opened_of_append (config : Config) {source : Source} (sink : Sink)
    {declared : Option Nat} {bytes behind : List UInt8} (hrest : source.rest = bytes ++ behind)
    (hdeclared : ∀ n, declared = some n → bytes.length ≤ n) :
    ∃ next, (opened config source sink declared).channel.upcoming = bytes ++ next := by
  cases declared with
  | none => exact ⟨behind, hrest⟩
  | some n =>
    refine ⟨behind.take (n - bytes.length), ?_⟩
    show source.rest.take n = _
    rw [hrest, List.take_append, List.take_of_length_le (hdeclared n rfl)]

/-- What reading the text gives is filed under the field of the name. -/
theorem leadsTo_of_file {name text : String} {caps : Capabilities} {f : Field} {k : Content.Kind}
    {w : WellKnown} {found : WellKnown → Prop} (hname : name ≠ "")
    (hshort : (Text.utf8 name).length ≤ Wire.longest)
    (hof : ∀ v block,
      Field.of? caps { name, group := .operation, tag := .uri, values := [v], block } = some f)
    (hk : f.kind? = some k) (hw : ({} : WellKnown).file Uri.asciiDomain f (.string text) = some w)
    (hfound : found w) :
    LeadsTo name text caps found := by
  intro header document config source sink declared htext hsteady hrest hdeclared
  have hform := RequestForm.wellFormed_ofUri header hname hshort htext
  have henough : (Exchange.opened config source sink declared).DeclaresEnough := fun n hn =>
    Nat.lt_of_lt_of_le (RequestForm.header_lt_length _) (hdeclared n hn)
  obtain ⟨behind, hupcoming⟩ := Exchange.upcoming_opened_of_append config sink hrest hdeclared
  obtain ⟨c, log, hparse, -, -⟩ :=
    Exchange.parse_of_bytes (Channel.steady_opened hsteady sink declared _) henough hform hupcoming
  have hrequest := (List.nil_append _).trans (RequestForm.attributes_ofUri header name text)
  obtain ⟨e, hread, hsingle, hreader⟩ :
      ∃ e, Exchange.parse (.opened config source sink declared) = .ok () e ∧
        e.request = [{ name, group := .operation, tag := .uri, values := [.string text], block := 1 }] ∧
        e.readDomain = Uri.asciiDomain :=
    ⟨_, hparse, hrequest, rfl⟩
  refine ⟨e, hread, ?_⟩
  rw [← hreader] at hw
  rw [WellKnown.classify_of_single hsingle (hof _ _) hk rfl hw]
  exact hfound

-- A URI that is read is filed as such.
theorem uri?_of_parse {text : String} {u : Uri} (hu : Uri.parse text = .ok u) :
    WellKnown.file.uri? Uri.asciiDomain (.string text) = some u := by
  have hparse : Uri.parseWith Uri.asciiDomain text = .ok u := hu
  rw [WellKnown.file.uri?, Value.string?, Option.bind_some, hparse]
  rfl

/-! ## Sites -/

theorem Site.leadsTo_job (site : Site) {n : Int32} (hn : 0 < n) :
    LeadsTo "job-uri" (site.root ++ ("/jobs/" ++ Text.decimalInt n.toInt)) { job := true } fun w =>
      w.job? = some n ∧ ∃ u, w.jobUri = some u ∧ site.Holds u := by
  obtain ⟨k, -, -, -, hk⟩ := exists_of_pos hn
  have hdecimal : Text.decimalInt n.toInt = Text.decimal k := congrArg Text.decimalInt hk
  have hfilled : Text.decimal k ≠ "" := by
    simp [Text.decimal]
  obtain ⟨u, hu, hholds, hname⟩ :=
    site.parse_member "jobs" (Text.decimal k) (by decide) (Uri.isSegment_decimal k) hfilled
  have hslashes : "/" ++ "jobs" ++ "/" = "/jobs/" := by decide
  rw [hslashes] at hu
  have hfile : ({} : WellKnown).file Uri.asciiDomain .jobUri
      (.string (site.root ++ ("/jobs/" ++ Text.decimal k))) = some { jobUri := some u } := by
    rw [WellKnown.file, uri?_of_parse hu]
    rfl
  have hnumber : u.basename?.bind WellKnown.jobNumber? = some n := by
    rw [hname, ← hdecimal]
    exact WellKnown.jobNumber?_eq_some_iff.mpr ⟨hn, WellKnown.spells_decimalInt n⟩
  rw [hdecimal]
  exact leadsTo_of_file (f := .jobUri) (by decide) (by decide) (fun _ _ => rfl) rfl hfile
    ⟨hnumber, u, rfl, hholds⟩

theorem Site.leadsTo_queue (site : Site) {queue : String} (hqueue : Uri.isSegment queue.toList = true)
    (hfilled : queue ≠ "") :
    LeadsTo "printer-uri" (site.root ++ ("/printers/" ++ queue)) { printer := true } fun w =>
      w.destination? = some queue ∧ ∃ u, w.printerUri = some u ∧ site.Holds u := by
  obtain ⟨u, hu, hholds, hname⟩ := site.parse_member "printers" queue (by decide) hqueue hfilled
  have hslashes : "/" ++ "printers" ++ "/" = "/printers/" := by decide
  rw [hslashes] at hu
  have hfile : ({} : WellKnown).file Uri.asciiDomain .printerUri
      (.string (site.root ++ ("/printers/" ++ queue))) = some { printerUri := some u } := by
    rw [WellKnown.file, uri?_of_parse hu]
    rfl
  exact leadsTo_of_file (f := .printerUri) (by decide) (by decide) (fun _ _ => rfl) rfl hfile
    ⟨hname, u, rfl, hholds⟩

/-- Under any name, port and script, the URI that is made for a job leads back to its number, and the URI
that is made for a queue leads back to its name; both have the host and the port of the site. -/
theorem handed_out_uris_lead_back (site : Site) :
    (∀ n : Int32, 0 < n →
      HandsOut site.root "/jobs/\x7b\x7d" (.integer n) (site.root ++ ("/jobs/" ++ Text.decimalInt n.toInt)) ∧
      LeadsTo "job-uri" (site.root ++ ("/jobs/" ++ Text.decimalInt n.toInt)) { job := true } fun w =>
        w.job? = some n ∧ ∃ u, w.jobUri = some u ∧ site.Holds u) ∧
    ∀ queue : String, Uri.isSegment queue.toList = true → queue ≠ "" →
      HandsOut site.root "/printers/\x7b\x7d" (.string queue) (site.root ++ ("/printers/" ++ queue)) ∧
      LeadsTo "printer-uri" (site.root ++ ("/printers/" ++ queue)) { printer := true } fun w =>
        w.destination? = some queue ∧ ∃ u, w.printerUri = some u ∧ site.Holds u := by
  refine ⟨fun n hn => ⟨?_, site.leadsTo_job hn⟩,
    fun queue hqueue hfilled => ⟨?_, site.leadsTo_queue hqueue hfilled⟩⟩
  · have hfill : (Value.integer n).fill "/jobs/\x7b\x7d" = "/jobs/" ++ Text.decimalInt n.toInt :=
      Value.fill_append (.integer n) "/jobs/" (by decide)
    rw [← hfill]
    exact handsOut site.root _ rfl
  · have hfill : (Value.string queue).fill "/printers/\x7b\x7d" = "/printers/" ++ queue :=
      Value.fill_append (.string queue) "/printers/" (by decide)
    rw [← hfill]
    exact handsOut site.root _ rfl

/-- A site on a port of its own, behind a path with an empty segment. -/
def sideSite : Site where
  name := "print.example"
  port := 8080
  script := "/cgi-bin//ipp"
  name_labels := by decide
  port_pos := by decide
  port_le := by decide
  script_segments := by decide

/-- A session that offers a job there. -/
def sideSession : Session :=
  (Session.play [.addStandard, .addTemplate .job .uri "job-uri" "/jobs/\x7b\x7d" (.integer 17)]
    { exchange := .opened { root := sideSite.root } { rest := [] } {} none }).2

/-- What a client sends back, and its document. -/
def sideRequest (name text : String) : Source :=
  { rest := (RequestForm.ofUri { major := 1, minor := 1, operation := 9 } name text).bytes ++ [1, 2]
    script := [.upTo 1, .interrupted, .upTo 7] }

theorem sideSite_leads_back :
    (∃ reply, (sideSession.step (.sendReply true)).2.exchange.channel.sink.bytes =
        sideSession.exchange.channel.produced ++ reply ∧
      (ItemForm.mk .uri (Text.utf8 "job-uri")
        (Text.utf8 "http://print.example:8080/cgi-bin//ipp/jobs/17")).bytes <:+: reply) ∧
    (∃ e, Exchange.parse (.opened {}
        (sideRequest "job-uri" "http://print.example:8080/cgi-bin//ipp/jobs/17") {} none) = .ok () e ∧
      (WellKnown.classify { job := true } e).1.job? = some 17) ∧
    ∃ e, Exchange.parse (.opened {}
        (sideRequest "printer-uri" "http://print.example:8080/cgi-bin//ipp/printers/north-2") {} none) =
          .ok () e ∧
      (WellKnown.classify { printer := true } e).1.destination? = some "north-2" := by
  have hsteady : ({} : Sink).Steady := by decide
  have hpositive : (0 : Int32) < 17 := by decide
  have hqueue : Uri.isSegment "north-2".toList = true := by decide
  have hscript : ({ rest := [], script := [.upTo 1, .interrupted, .upTo 7] } : Source).Steady := by decide
  have hsource : ∀ name text, (sideRequest name text).Steady := fun _ _ => hscript
  obtain ⟨hjobs, hqueues⟩ := handed_out_uris_lead_back sideSite
  obtain ⟨hout, hback⟩ := hjobs 17 hpositive
  obtain ⟨-, hqueueback⟩ := hqueues "north-2" hqueue (by decide)
  have hjob : sideSite.root ++ ("/jobs/" ++ Text.decimalInt (17 : Int32).toInt) =
      "http://print.example:8080/cgi-bin//ipp/jobs/17" := by decide
  have hprinter : sideSite.root ++ ("/printers/" ++ "north-2") =
      "http://print.example:8080/cgi-bin//ipp/printers/north-2" := by decide
  rw [hjob] at hout hback
  rw [hprinter] at hqueueback
  have hsent : (sideSession.step (.sendReply true)).1.answer = .ok .done :=
    hout.sent { root := sideSite.root } { rest := [] } {} none .job "job-uri" true sideSession rfl hsteady
      (by decide) (by decide) rfl
  have hcalls : ∀ call ∈ [.addStandard, .addTemplate .job .uri "job-uri" "/jobs/\x7b\x7d" (.integer 17)],
      Call.replies call = false := by decide
  obtain ⟨-, hwritten⟩ := hout.written { root := sideSite.root } { rest := [] } {} none _ .job "job-uri" true
    sideSession rfl hcalls (List.mem_cons_of_mem _ List.mem_cons_self) rfl hsent
  obtain ⟨e, hparse, hnumber, -⟩ := hback _ _ {} _ {} none (by decide) (hsource _ _) rfl nofun
  obtain ⟨e', hparse', hname, -⟩ := hqueueback _ _ {} _ {} none (by decide) (hsource _ _) rfl nofun
  exact ⟨hwritten, ⟨e, hparse, hnumber⟩, e', hparse', hname⟩

end Ipp
