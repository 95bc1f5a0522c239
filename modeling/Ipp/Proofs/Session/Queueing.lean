import Ipp.Proofs.Reply.Growing
import Ipp.Proofs.Session.Steps

/-!
# What calls queue

Every call only appends to the lists of the reply: what was in the request, what the caller hands over, and
what it lets the builders make.
-/

namespace Ipp

open Calls

/-- A property that does not depend on the place of an attribute, and that whatever can be written has. -/
structure Attribute.Portable (P : Attribute → Prop) : Prop where
  placed : ∀ {a : Attribute}, P a → ∀ g block, P { a with group := g, block }
  encodable : ∀ a : Attribute, a.Encodable → P a

theorem Attribute.portable_encodable : Portable Encodable :=
  ⟨fun h g block => h.placed g block, fun _ => id⟩

theorem Attribute.portable_true : Portable fun _ => True :=
  ⟨fun _ _ _ => trivial, fun _ _ => trivial⟩

/-- An attribute that the caller has made has `P`. -/
def Call.HandsOver (P : Attribute → Prop) : Call → Prop
  | .demote (.made a) | .addCopy _ (.made a) => P a
  | _ => True

theorem Call.handsOver_true (call : Call) : call.HandsOver fun _ => True := by
  unfold HandsOver
  split <;> trivial

/-- The call sends the reply, or names the file that is sent in place of it. -/
def Call.replies : Call → Bool
  | .sendReply _ | .replyFromFile _ => true
  | _ => false

variable {P : Attribute → Prop}

/-! ## Exchanges -/

namespace Exchange

/-- From `e` to `e'` only attributes with `P` were appended to the lists of the reply, and the file that is
sent in place of it is the same. -/
structure Appends (P : Attribute → Prop) (e e' : Exchange) : Prop where
  queue : e.queue.Extends P e'.queue
  file : e'.substitute = e.substitute

variable {e e' e'' : Exchange}

theorem Appends.refl (e : Exchange) : e.Appends P e :=
  ⟨.refl e.queue, rfl⟩

theorem Appends.trans (h : e.Appends P e') (h' : e'.Appends P e'') : e.Appends P e'' :=
  ⟨h.queue.trans h'.queue, h'.file.trans h.file⟩

theorem Parses.appends (h : e.Parses e') : e.Appends P e' := by
  rw [h.rest]
  exact ⟨.refl e.queue, rfl⟩

theorem Sifts.appends (h : e.Sifts e') (hP : Attribute.Portable P) (hrequest : ∀ a ∈ e.request, P a) :
    e.Appends P e' where
  queue := by
    obtain ⟨refused, hrefused, hqueue⟩ := h.queue
    rw [hqueue]
    exact e.queue.extends_refuse fun a ha => hP.placed (hrequest a (hrefused a ha)) .unsupported a.block
  file := by rw [h.rest]

theorem keepsAppends_queueing {change : Queue → Except Fault Queue} (h : Queue.Grows P change) :
    Keeps (Appends P) (queueing change) := by
  intro e
  unfold queueing
  cases hq : change e.queue with
  | ok queue => exact ⟨h hq, rfl⟩
  | error fault => exact .refl e

-- What is claimed as it is, is not refused.
theorem appends_claim (g : Group) (t : ValueTag) (n : String) (e : Exchange) :
    e.Appends P (claim g t n e).2 := by
  have htakes := (claim_takes g t n e).2
  have hnone : refusedOf (fun _ => true) (e.request.find? (·.isFor g t n)) = [] := by
    cases e.request.find? (·.isFor g t n) <;> rfl
  refine ⟨?_, by rw [htakes.rest]⟩
  rw [htakes.queue, hnone]
  exact .refl e.queue

theorem appends_echo (hP : Attribute.Portable P) (hrequest : ∀ a ∈ e.request, P a) :
    e.Appends P (final (echo e)) := by
  have hbehind : Keeps (Appends P) (echoBehind none e.request) :=
    keeps_echoBehind Appends.refl Appends.trans (fun _ => keepsAppends_queueing Queue.grows_insertEnd)
      appends_claim
      (fun a ha => keepsAppends_queueing (Queue.grows_addCopy (hP.placed (hrequest a ha) a.group 0))) none
  have hcounted : Keeps (Appends P) (do
      echoBehind none e.request
      return e.request.length) :=
    hbehind.bind Appends.trans fun _ => keeps_pure Appends.refl _
  exact hcounted e

theorem appends_forwardRequest (sink : Sink) (e : Exchange) :
    e.Appends P (e.forwardRequest sink).exchange := by
  unfold forwardRequest onChannel
  cases Channel.rewind e.channel <;> exact ⟨.refl e.queue, rfl⟩

theorem extends_sendReply (hP : Attribute.Portable P) (hrequest : ∀ a ∈ e.request, P a)
    (header : Bool) : e.queue.Extends P (final (sendReply header e)).queue := by
  by_cases hreplied : e.replied = true
  · rw [final_sendReply_of_replied hreplied]
    exact .refl e.queue
  · obtain ⟨e', x, hsifts, -, heq⟩ := final_sendReply (Bool.eq_false_iff.mpr hreplied) header
    rw [heq]
    exact (hsifts.appends hP hrequest).queue

end Exchange

/-! ## Calls -/

namespace Session

theorem appends_build {change : Queue → Except Fault Queue} (h : Queue.Grows P change) (s : Session) :
    s.exchange.Appends P (final (build change s)).exchange := by
  have hfinal : (final (build change s)).exchange = final (Exchange.queueing change s.exchange) :=
    exchange_final_onExchange _ _ s
  rw [hfinal]
  exact Exchange.keepsAppends_queueing h s.exchange

/-- Whether it fails or not, a call that does not reply appends to the lists, and takes nothing from them. -/
theorem appends_perform (hP : Attribute.Portable P) {call : Call} (hcall : call.HandsOver P)
    (hreplies : call.replies = false) {s : Session} (hrequest : ∀ a ∈ s.exchange.request, P a)
    (hheld : ∀ a ∈ s.held, P a) : s.exchange.Appends P (final (perform call s)).exchange := by
  have hhandle : ∀ handle : Handle, (∀ a, handle = .made a → P a) →
      ∀ a, s.attribute? handle = some a → P a := by
    intro handle hmade a ha
    cases handle with
    | held position => exact hheld a (List.mem_of_getElem? ha)
    | made b => exact hmade a (by cases ha; rfl)
  have hbuild : ∀ {change : Queue → Except Fault Queue}, Queue.Grows Attribute.Encodable change →
      s.exchange.Appends P (final (build change s)).exchange :=
    fun hgrows => appends_build (hgrows.mono hP.encodable) s
  have hparses : ∀ {x : Exchange.Action Unit}, Keeps Exchange.Parses x → s.exchange.Appends P
      (final ((do onExchange x; return .done : Action Answer) s)).exchange := by
    intro x hx
    rw [exchange_final_onExchange x (fun _ => .done)]
    exact (hx s.exchange).appends
  by_cases hclaims : call.claims = true
  · exact (sifts_perform hclaims s).appends hP hrequest
  cases call with
  | parse => exact hparses Exchange.keeps_parse
  | parseHeader => exact hparses Exchange.keeps_parseHeader
  | parseBody => exact hparses Exchange.keeps_parseBody
  | demote handle =>
    rw [perform, get_bind]
    cases ha : s.attribute? handle with
    | none => exact .refl s.exchange
    | some a =>
      have hhas : P a := hhandle handle (fun b hb => by rw [hb] at hcall; exact hcall) a ha
      exact ⟨s.exchange.queue.extends_insert (hP.placed hhas .unsupported a.block), rfl⟩
  | addCopy g handle =>
    rw [perform, get_bind]
    cases ha : s.attribute? handle with
    | none => exact .refl s.exchange
    | some a =>
      have hhas : P a := hhandle handle (fun b hb => by rw [hb] at hcall; exact hcall) a ha
      exact appends_build (Queue.grows_addCopy (hP.placed hhas g 0)) s
  | echo =>
    rw [perform, exchange_final_onExchange Exchange.echo .count]
    exact Exchange.appends_echo hP hrequest
  | addInteger g tag name n => exact hbuild (Queue.grows_addInteger n)
  | addIntegers g tag name ns => exact hbuild (Queue.grows_addIntegers ns)
  | addString g tag name text => exact hbuild (Queue.grows_addString text)
  | addStrings g tag name texts => exact hbuild (Queue.grows_addStrings texts)
  | addBoolean g tag name b => exact hbuild (Queue.grows_addBoolean b)
  | addOutOfBand g tag name => exact hbuild Queue.grows_addOutOfBand
  | addTemplate g tag name pattern arg => exact hbuild (Queue.grows_addTemplates pattern [arg])
  | addTemplates g tag name pattern args => exact hbuild (Queue.grows_addTemplates pattern args)
  | addEnd g => exact appends_build Queue.grows_insertEnd s
  | addStandard => exact hbuild Queue.grows_addStandard
  | forwardRequest sink => exact Exchange.appends_forwardRequest sink s.exchange
  | readDocument | setStatus | rejectOperation | setRemoteUser | setRemoteAddr | setPathInfo =>
    exact ⟨.refl _, rfl⟩
  | sendReply | replyFromFile => cases hreplies
  | header | request | queue | trace | info | find | claim | claimSingle | claimString | claimUri
  | claimPositive | claimEnum | claimBoolean | claimKeyword | claimIdentity | classify | isRequested
  | release => exact absurd rfl hclaims

theorem substitute_perform {call : Call} (hreplies : call.replies = false) (s : Session) :
    (final (perform call s)).exchange.substitute = s.exchange.substitute :=
  (appends_perform Attribute.portable_true call.handsOver_true hreplies (fun _ _ => trivial)
    fun _ _ => trivial).file

-- The reply itself queues what the sweep refuses.
theorem extends_perform (hP : Attribute.Portable P) {call : Call} (hcall : call.HandsOver P) {s : Session}
    (hrequest : ∀ a ∈ s.exchange.request, P a) (hheld : ∀ a ∈ s.held, P a) :
    s.exchange.queue.Extends P (final (perform call s)).exchange.queue := by
  by_cases hreplies : call.replies = true
  · cases call with
    | sendReply header =>
      rw [perform, exchange_final_onExchange (Exchange.sendReply header) (fun _ => .done)]
      exact Exchange.extends_sendReply hP hrequest header
    | replyFromFile content => exact .refl s.exchange.queue
    | _ => cases hreplies
  · exact (appends_perform hP hcall (Bool.eq_false_iff.mpr hreplies) hrequest hheld).queue

theorem held_hold {claim : Exchange.Query (Option Attribute)} {s : Session}
    (h : ∀ a, (claim s.exchange).1 = some a → a ∈ s.exchange.request) {a : Attribute}
    (ha : a ∈ (final (hold claim s)).held) : a ∈ s.held ∨ a ∈ s.exchange.request := by
  have hheld : (final (hold claim s)).held = s.held ++ (claim s.exchange).1.toList := rfl
  rw [hheld] at ha
  rcases List.mem_append.mp ha with ha | ha
  · exact .inl ha
  · exact .inr (h a (Option.mem_toList.mp ha))

theorem held_onExchange {α : Type} (x : Exchange.Action α) (answer : α → Answer) (s : Session) :
    (final ((do return answer (← onExchange x) : Action Answer) s)).held = s.held := by
  rw [answer_onExchange]
  cases x s.exchange <;> rfl

theorem held_release (s : Session) : s.release.held = s.held := by
  rw [release]
  cases s.wellKnown <;> rfl

theorem held_isRequested (name : String) (s : Session) : (isRequested name s).2.held = s.held := by
  rw [isRequested]
  cases s.wellKnown <;> rfl

/-- What the caller is handed was in the request. -/
theorem held_perform {call : Call} {s : Session} {a : Attribute}
    (ha : a ∈ (final (perform call s)).held) : a ∈ s.held ∨ a ∈ s.exchange.request := by
  have hkept : (final (perform call s)).held = s.held → a ∈ s.held ∨ a ∈ s.exchange.request := by
    intro h
    rw [h] at ha
    exact .inl ha
  cases call with
  | claim g t n =>
    refine held_hold (fun b hb => ?_) ha
    rw [(Exchange.claim_takes g t n s.exchange).1] at hb
    exact List.mem_of_find?_eq_some hb
  | claimSingle g t n =>
    refine held_hold (fun b hb => ?_) ha
    rw [(Exchange.claimSingle_takes g t n s.exchange).1] at hb
    exact List.mem_of_find?_eq_some (Option.filter_eq_some_iff.mp hb).1
  | demote handle =>
    apply hkept
    rw [perform, get_bind]
    cases s.attribute? handle <;> rfl
  | addCopy g handle =>
    apply hkept
    rw [perform, get_bind]
    cases s.attribute? handle with
    | none => rfl
    | some b => exact held_onExchange _ (fun _ => .done) s
  | classify caps => exact hkept (held_release { s with exchange := (WellKnown.classify caps s.exchange).2 })
  | isRequested name => exact hkept (held_isRequested name s)
  | release => exact hkept (held_release s)
  | parse | parseHeader | parseBody | addInteger | addIntegers | addString | addStrings | addBoolean
  | addOutOfBand | addTemplate | addTemplates | addEnd | addStandard | sendReply =>
    exact hkept (held_onExchange _ (fun _ => .done) s)
  | echo => exact hkept (held_onExchange Exchange.echo .count s)
  | header | request | queue | trace | info | find | claimString | claimUri | claimPositive | claimEnum
  | claimBoolean | claimKeyword | claimIdentity | setStatus | rejectOperation | setRemoteUser
  | setRemoteAddr | setPathInfo | replyFromFile | forwardRequest | readDocument => exact hkept rfl

/-- Whatever the calls are, nothing that was queued before them is changed or removed. -/
theorem extends_play (calls : List Call) (s : Session) :
    s.exchange.queue.Extends (fun _ => True) (s.play calls).2.exchange.queue := by
  induction calls generalizing s with
  | nil => exact .refl _
  | cons call calls ih =>
    have hstep := extends_perform Attribute.portable_true call.handsOver_true (s := s) (fun _ _ => trivial)
      fun _ _ => trivial
    rw [← step_eq] at hstep
    exact hstep.trans (ih _)

end Session
end Ipp
