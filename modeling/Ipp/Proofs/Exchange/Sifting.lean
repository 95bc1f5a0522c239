import Ipp.Call
import Ipp.Proofs.Channel.Course
import Ipp.Proofs.Exchange.Claims
import Ipp.Proofs.Reply.Sending

/-!
# What happens to the request

Attributes leave the request and never come back. Claims, classification, the checks and the sweep before
the reply only sift it: what has left is in other hands or queued as unsupported (`Sifts`). Other calls
also queue what the caller has made and hand over the document (`Works`).
-/

namespace Ipp

open Calls

namespace Exchange

/-! ## Sifting -/

/-- From `e` to `e'` attributes have left the request, and some of them are queued as unsupported. Apart
from that only events are reported. -/
structure Sifts (e e' : Exchange) : Prop where
  request : e'.request.Sublist e.request
  queue : ∃ refused, (∀ a ∈ refused, a ∈ e.request) ∧ e'.queue = e.queue.refuse refused
  rest : e' = { e with request := e'.request, queue := e'.queue, log := e'.log }

variable {e e' e'' : Exchange}

theorem Sifts.refl (e : Exchange) : e.Sifts e :=
  ⟨.refl _, ⟨[], nofun, rfl⟩, rfl⟩

theorem Sifts.trans (h : e.Sifts e') (h' : e'.Sifts e'') : e.Sifts e'' where
  request := h'.request.trans h.request
  queue := by
    obtain ⟨refused, hmem, hqueue⟩ := h.queue
    obtain ⟨refused', hmem', hqueue'⟩ := h'.queue
    refine ⟨refused ++ refused', fun a ha => ?_, ?_⟩
    · rcases List.mem_append.mp ha with ha | ha
      · exact hmem a ha
      · exact h.request.subset (hmem' a ha)
    · rw [hqueue', hqueue, Queue.refuse_append]
  rest := by
    rw [h'.rest, h.rest]

-- Nothing that is refused gets into the operation group.
theorem Sifts.operation (h : e.Sifts e') : e'.queue.operation = e.queue.operation := by
  obtain ⟨refused, -, hqueue⟩ := h.queue
  rw [hqueue]
  refine (Queue.list_refuse _ _ .operation).trans ?_
  rw [if_neg (by decide), List.append_nil]
  rfl

-- What is demoted has been in the request.
theorem Sifts.demote (h : e.Sifts e') {a : Attribute} (ha : a ∈ e.request) : e.Sifts (e'.demote a) where
  request := h.request
  queue := by
    obtain ⟨refused, hmem, hqueue⟩ := h.queue
    refine ⟨refused ++ [a], fun b hb => ?_, ?_⟩
    · rcases List.mem_append.mp hb with hb | hb
      · exact hmem b hb
      · cases List.mem_singleton.mp hb
        exact ha
    · rw [demote_eq, hqueue, Queue.refuse_append]
  rest := by
    rw [demote_eq]
    rw [h.rest]

theorem mem_of_mem_refusedOf {accepts key : Attribute → Bool} {request : List Attribute}
    {a : Attribute} (h : a ∈ refusedOf accepts (request.find? key)) : a ∈ request := by
  rw [refusedOf, Option.mem_toList, Option.filter_eq_some_iff] at h
  exact List.mem_of_find?_eq_some h.1

theorem Takes.sifts {key accepts : Attribute → Bool} (h : e.Takes key accepts e') : e.Sifts e' where
  request := by rw [h.request]; exact List.eraseP_sublist
  queue := ⟨_, fun _ ha => mem_of_mem_refusedOf ha, h.queue⟩
  rest := h.rest

/-! ### Classification -/

-- One attribute is filed or refused.
theorem examine_eq (caps : Capabilities) (w : WellKnown) (e : Exchange) (a : Attribute) :
    ∃ w' refused, (∀ b ∈ refused, b = a) ∧
      WellKnown.examine caps (w, e) a = (w', { e with queue := e.queue.refuse refused }) := by
  have hself : ∀ b ∈ [a], b = a := fun b hb => List.mem_singleton.mp hb
  unfold WellKnown.examine
  dsimp only
  split
  · exact ⟨_, [a], hself, rfl⟩
  · exact ⟨_, [], nofun, rfl⟩
  · exact ⟨_, [], nofun, rfl⟩
  · split
    · exact ⟨_, [], nofun, rfl⟩
    · exact ⟨_, [a], hself, rfl⟩

-- What is classified leaves the request, and some of it is refused.
theorem foldl_examine (caps : Capabilities) (examined : List Attribute) (w : WellKnown)
    (e : Exchange) : ∃ w' refused, (∀ a ∈ refused, a ∈ examined) ∧
      examined.foldl (WellKnown.examine caps) (w, e) =
        (w', { e with queue := e.queue.refuse refused }) := by
  induction examined generalizing w e with
  | nil => exact ⟨w, [], nofun, rfl⟩
  | cons a examined ih =>
    obtain ⟨w₁, refused, hrefused, heq⟩ := examine_eq caps w e a
    obtain ⟨w₂, refused', hrefused', heq'⟩ := ih w₁ { e with queue := e.queue.refuse refused }
    refine ⟨w₂, refused ++ refused', fun b hb => ?_, ?_⟩
    · rcases List.mem_append.mp hb with hb | hb
      · rw [hrefused b hb]
        exact List.mem_cons_self
      · exact List.mem_cons_of_mem a (hrefused' b hb)
    · rw [List.foldl_cons, heq, heq', Queue.refuse_append]

theorem classify_sifts (caps : Capabilities) (e : Exchange) :
    e.Sifts (WellKnown.classify caps e).2 := by
  rw [WellKnown.classify]
  obtain ⟨w, refused, hrefused, heq⟩ := foldl_examine caps
    (e.request.filter (WellKnown.isExamined caps)) {}
    { e with request := e.request.filter (!WellKnown.isExamined caps ·) }
  rw [heq]
  exact ⟨List.filter_sublist, ⟨refused, fun a ha => (List.mem_filter.mp (hrefused a ha)).1, rfl⟩, rfl⟩

/-! ### The checks and the sweep -/

theorem sweep_sifts (e : Exchange) : e.Sifts e.sweep := by
  rw [sweep_eq]
  exact ⟨List.filter_sublist, ⟨_, fun a ha => (List.mem_filter.mp ha).1, rfl⟩, rfl⟩

theorem precheck_sifts (e : Exchange) : e.Sifts (precheck e).2 := by
  obtain ⟨hfound, htakes⟩ := claimSingle_takes .operation .charset "attributes-charset" e
  unfold precheck
  by_cases hversion : e.header.major ≠ 1
  · rw [if_pos hversion]
    exact .refl e
  rw [if_neg hversion]
  by_cases hleads : (!e.leadsWithCharset) = true
  · rw [if_pos hleads]
    exact .refl e
  rw [if_neg hleads]
  generalize claimSingle .operation .charset "attributes-charset" e = claimed at hfound htakes ⊢
  obtain ⟨found, e₁⟩ := claimed
  have hlanguage := (claim_takes .operation .naturalLanguage "attributes-natural-language" e₁).2
  dsimp only at hfound htakes ⊢
  generalize claim .operation .naturalLanguage "attributes-natural-language" e₁ = claimed
    at hlanguage ⊢
  obtain ⟨language, e₂⟩ := claimed
  have hsifts : e.Sifts e₂ := htakes.sifts.trans hlanguage.sifts
  cases found with
  | none => exact hsifts
  | some a =>
    dsimp only
    split
    · exact hsifts
    · -- The charset that is demoted was the one claimed.
      have ha : e.find? .operation .charset "attributes-charset" = some a :=
        (Option.filter_eq_some_iff.mp hfound.symm).1
      exact hsifts.demote (List.mem_of_find?_eq_some ha)

/-! ## Working -/

/-- From `e` to `e'` bytes of the request may have been handed over, attributes may have left it, and any
may have been queued; nothing was sent. -/
structure Works (e e' : Exchange) : Prop where
  reads : e.channel.Reads e'.channel
  request : e'.request.Sublist e.request
  header : e'.header = e.header
  root : e'.root = e.root
  replied : e'.replied = e.replied
  closed : e'.closed = e.closed

theorem Works.refl (e : Exchange) : e.Works e :=
  ⟨.refl _, .refl _, rfl, rfl, rfl, rfl⟩

theorem Works.trans (h : e.Works e') (h' : e'.Works e'') : e.Works e'' where
  reads := h.reads.trans h'.reads
  request := h'.request.trans h.request
  header := h'.header.trans h.header
  root := h'.root.trans h.root
  replied := h'.replied.trans h.replied
  closed := h'.closed.trans h.closed

theorem Sifts.works (h : e.Sifts e') : e.Works e' := by
  have hrequest := h.request
  rw [h.rest]
  exact ⟨.refl _, hrequest, rfl, rfl, rfl, rfl⟩

theorem works_channel {c : Channel} (h : e.channel.Reads c) : e.Works { e with channel := c } :=
  ⟨h, .refl _, rfl, rfl, rfl, rfl⟩

theorem keepsWorks_queueing (change : Queue → Except Fault Queue) : Keeps Works (queueing change) := by
  intro e
  unfold queueing
  cases change e.queue with
  | ok queue => exact ⟨.refl _, .refl _, rfl, rfl, rfl, rfl⟩
  | error fault => exact .refl e

-- What one marker, one claim and one copy keep is kept by all of them.
theorem keeps_echoBehind {R : Exchange → Exchange → Prop} (hr : ∀ e, R e e)
    (ht : ∀ {e₁ e₂ e₃}, R e₁ e₂ → R e₂ e₃ → R e₁ e₃) (hend : ∀ g, Keeps R (queueing (·.insertEnd g)))
    (hclaim : ∀ g t n e, R e (claim g t n e).2) {attributes : List Attribute}
    (hcopy : ∀ a ∈ attributes, Keeps R (queueing (Queue.addCopy a.group a))) (before : Option Attribute) :
    Keeps R (echoBehind before attributes) := by
  induction attributes generalizing before with
  | nil => exact keeps_pure hr _
  | cons a attributes ih =>
    have htaken : Keeps R (modifyGet (claim a.group a.tag a.name) : Action (Option Attribute)) :=
      hclaim a.group a.tag a.name
    have hbehind : Keeps R (do
        queueing (Queue.addCopy a.group a)
        let _ ← modifyGet (claim a.group a.tag a.name)
        echoBehind (some a) attributes) :=
      (hcopy a List.mem_cons_self).bind ht fun _ => htaken.bind ht fun _ =>
        ih (fun b hb => hcopy b (List.mem_cons_of_mem a hb)) (some a)
    exact keeps_ite ((hend a.group).bind ht fun _ => hbehind) hbehind

theorem keepsWorks_echoBehind (before : Option Attribute) (attributes : List Attribute) :
    Keeps Works (echoBehind before attributes) :=
  keeps_echoBehind Works.refl Works.trans (fun _ => keepsWorks_queueing _)
    (fun g t n e => (claim_takes g t n e).2.sifts.works) (fun _ _ => keepsWorks_queueing _) before

theorem keepsWorks_echo : Keeps Works echo :=
  keeps_get_bind fun e =>
    (keepsWorks_echoBehind none e.request).bind Works.trans fun _ => keeps_pure Works.refl _

theorem deliver_ok {α : Type} {summary : Array UInt8 → α} {sink : Sink} {e : Exchange} {a : α}
    (h : (e.deliver summary sink).outcome = .ok a) :
    ∃ bytes, (Channel.copyRest sink e.channel).outcome = .ok bytes ∧ summary bytes = a := by
  unfold deliver at h
  dsimp only at h
  cases ho : (Channel.copyRest sink e.channel).outcome with
  | ok bytes =>
    rw [ho] at h
    cases h
    exact ⟨bytes, rfl, rfl⟩
  | error fault =>
    rw [ho] at h
    cases h

theorem deliver_error {α : Type} {summary : Array UInt8 → α} {sink : Sink} {e : Exchange} {fault : Fault}
    (h : (e.deliver summary sink).outcome = .error fault) :
    (Channel.copyRest sink e.channel).outcome = .error fault := by
  unfold deliver at h
  dsimp only at h
  cases ho : (Channel.copyRest sink e.channel).outcome with
  | ok bytes =>
    rw [ho] at h
    cases h
  | error fault' =>
    rw [ho] at h
    cases h
    rfl

theorem deliver_works {α : Type} (summary : Array UInt8 → α) (sink : Sink) (e : Exchange) :
    e.Works (e.deliver summary sink).exchange :=
  works_channel (Channel.reads_copyRest sink e.channel)

theorem forwardRequest_works (sink : Sink) (e : Exchange) :
    e.Works (e.forwardRequest sink).exchange := by
  have hrewind := Channel.keeps_rewind e.channel
  unfold forwardRequest onChannel
  cases hr : Channel.rewind e.channel with
  | ok a c =>
    rw [hr] at hrewind
    exact (works_channel hrewind).trans (deliver_works Array.size sink _)
  | error fault c =>
    rw [hr] at hrewind
    exact works_channel hrewind

/-! ## Replying -/

theorem keepsRoom_putEncoding (encoding : Encoding) : Channel.KeepsRoom (putEncoding encoding) := by
  apply (Channel.keepsRoom_putBytes encoding.bytes).bind
  cases encoding.fault with
  | none => exact Channel.keepsRoom_flush
  | some fault => exact Channel.keepsRoom_throw fault

theorem keepsRoom_sendFile (header : Bool) (content : List UInt8) :
    Channel.KeepsRoom (sendFile header content) :=
  (Channel.keepsRoom_putBytes _).bind
    ((Channel.keepsRoom_copyFile content).bind Channel.keepsRoom_flush)

-- A second reply is refused, and nothing happens.
theorem final_sendReply_of_replied {e : Exchange} (h : e.replied = true) (header : Bool) :
    final (sendReply header e) = e := by
  unfold sendReply
  rw [if_pos h]
  rfl

theorem final_sendQueue (header : Bool) (e : Exchange) :
    ∃ x : Channel.Action Unit, Channel.KeepsRoom x ∧
      final (sendQueue header e) = { e.sweep with channel := final (x e.channel) } := by
  unfold sendQueue
  dsimp only
  split
  · refine ⟨pure (), Channel.keepsRoom_pure, ?_⟩
    rw [sweep_eq]
    rfl
  · refine ⟨_, keepsRoom_putEncoding (.ofBytes (replyPreamble header) ++
      encodeReply e.sweep.root e.sweep.header e.sweep.status e.sweep.queue), ?_⟩
    rw [final_onChannel, sweep_channel]

-- The first one sifts the request or takes the file, and then sends, with any success.
theorem final_sendReply {e : Exchange} (h : e.replied = false) (header : Bool) :
    ∃ (e' : Exchange) (x : Channel.Action Unit), e.Sifts e' ∧ Channel.KeepsRoom x ∧
      final (sendReply header e) =
        { e' with replied := true, substitute := none, channel := final (x e.channel) } := by
  unfold sendReply
  rw [if_neg (by rw [h]; decide)]
  dsimp only
  cases hfile : e.substitute with
  | some content =>
    refine ⟨e, sendFile header content, .refl e, keepsRoom_sendFile header content, ?_⟩
    exact final_onChannel _ _
  | none =>
    obtain ⟨x, hx, heq⟩ := final_sendQueue header { e with replied := true }
    refine ⟨e.sweep, x, sweep_sifts e, hx, ?_⟩
    dsimp only
    rw [← hfile, heq, sweep_eq, sweep_eq e]

end Exchange
end Ipp
