import Ipp.Exchange.Echo
import Ipp.Proofs.Reply.Sending
import Ipp.Proofs.Request.Acceptance
import Ipp.Proofs.Request.Alike
import Ipp.Serve
import Ipp.WellKnown

/-!
# Exchanges through different buffers

An exchange works on its channel only by reading the request and by sending the reply. All its other
calls leave the channel alone, so that two exchanges whose channels are alike stay so.
-/

namespace Ipp.Exchange

open Calls

/-- The same exchange on another channel, not closed yet. -/
def through (e : Exchange) (c : Channel) : Exchange :=
  { e with channel := c, closed := false }

/-- The same exchange on channels that are alike. -/
inductive Alike : Exchange → Exchange → Prop
  | through (e : Exchange) {c d : Channel} (h : c.Alike d) : Alike (e.through c) (e.through d)

/-! ## Calls that leave the channel alone -/

/-- The query neither looks at the channel nor changes it. -/
def Blind {α : Type} (q : Query α) : Prop :=
  ∀ e c, q (e.through c) = ((q e).1, (q e).2.through c)

section Blind

variable (g : Group) (t : ValueTag) (n : String)

theorem blind_claim : Blind (claim g t n) := by
  intro e c
  have hrequest : (e.through c).request = e.request := rfl
  unfold claim
  rw [hrequest]
  cases takeFirst (·.isFor g t n) e.request with
  | none => rfl
  | some found => rfl

theorem blind_claimSingle : Blind (claimSingle g t n) := by
  intro e c
  unfold claimSingle
  rw [blind_claim]
  rcases claim g t n e with ⟨_ | a, e'⟩
  · rfl
  · dsimp only
    split <;> rfl

theorem blind_claimValue {α : Type} (use : Value → Option α) : Blind (claimValue use g t n) := by
  intro e c
  unfold claimValue
  rw [blind_claimSingle]
  rcases claimSingle g t n e with ⟨_ | a, e'⟩
  · rfl
  · dsimp only
    cases a.values.head?.bind use with
    | none => rfl
    | some v => rfl

-- The channel has no part in how domains are read.
theorem readDomain_through (e : Exchange) (c : Channel) : (e.through c).readDomain = e.readDomain :=
  rfl

theorem blind_claimUri : Blind (claimUri g n) := by
  intro e c
  unfold claimUri
  rw [blind_claimSingle]
  rcases claimSingle g .uri n e with ⟨_ | a, e'⟩
  · rfl
  · dsimp only
    rw [readDomain_through]
    rcases (a.values.head?.bind Value.string?).map (Uri.parseWith e'.readDomain) with _ | _ | _ <;> rfl

theorem blind_claimBoolean (default : Bool) : Blind (claimBoolean g n default) := by
  intro e c
  unfold claimBoolean
  rw [blind_claimValue]
  rfl

theorem blind_claimIdentity (authenticated : Bool) : Blind (claimIdentity authenticated) := by
  intro e c
  unfold claimIdentity claimString
  rw [blind_claimValue]
  rcases claimValue Value.string? .operation .name "requesting-user-name" e with ⟨_ | claimed, e'⟩
  · rfl
  · have hremote : (e'.through c).remoteUser = e'.remoteUser := rfl
    dsimp only
    rw [hremote]
    cases e'.remoteUser with
    | none => rfl
    | some remote =>
      by_cases hclaimed : claimed ≠ remote
      · simp only [if_pos hclaimed]
        rfl
      · simp only [if_neg hclaimed]
        rfl

end Blind

theorem blind_precheck : Blind precheck := by
  intro e c
  have hmajor : (e.through c).header.major = e.header.major := rfl
  have hleads : (e.through c).leadsWithCharset = e.leadsWithCharset := rfl
  unfold precheck
  rw [hmajor, hleads]
  by_cases hversion : e.header.major ≠ 1
  · rw [if_pos hversion, if_pos hversion]
  rw [if_neg hversion, if_neg hversion]
  by_cases hcharset : (!e.leadsWithCharset) = true
  · rw [if_pos hcharset, if_pos hcharset]
  rw [if_neg hcharset, if_neg hcharset, blind_claimSingle]
  rcases claimSingle .operation .charset "attributes-charset" e with ⟨_ | a, e'⟩
  · dsimp only
    rw [blind_claim]
    rfl
  · dsimp only
    rw [blind_claim]
    dsimp only
    split <;> rfl

theorem examine_through (caps : Capabilities) (w : WellKnown) (e : Exchange) (c : Channel)
    (a : Attribute) : WellKnown.examine caps (w, e.through c) a =
      ((WellKnown.examine caps (w, e) a).1, (WellKnown.examine caps (w, e) a).2.through c) := by
  unfold WellKnown.examine
  dsimp only
  rw [readDomain_through]
  split
  · rfl
  · rfl
  · rfl
  · split <;> rfl

theorem blind_classify (caps : Capabilities) : Blind (WellKnown.classify caps) := by
  -- The fold starts with nothing filed, but goes on with more.
  suffices hfold : ∀ (examined : List Attribute) (w : WellKnown) (e : Exchange) (c : Channel),
      examined.foldl (WellKnown.examine caps) (w, e.through c) =
        ((examined.foldl (WellKnown.examine caps) (w, e)).1,
          (examined.foldl (WellKnown.examine caps) (w, e)).2.through c) from
    fun e c => hfold _ {} { e with request := e.request.filter (!WellKnown.isExamined caps ·) } c
  intro examined
  induction examined with
  | nil => exact fun _ _ _ => rfl
  | cons a examined ih =>
    intro w e c
    rw [List.foldl_cons, List.foldl_cons, examine_through, ih]

theorem sweep_through (e : Exchange) (c : Channel) : (e.through c).sweep = e.sweep.through c := by
  rw [sweep_eq, sweep_eq]
  rfl

/-! ## Calls that fail or succeed alike -/

theorem agree_onChannel {α : Type} {call : Channel.Action α}
    (h : Agree Channel.Alike call call) : Agree Alike (onChannel call) (onChannel call) := by
  rintro _ _ ⟨e, hcd⟩
  have hend := h _ _ hcd
  unfold onChannel
  dsimp only [through]
  generalize call _ = p at hend ⊢
  generalize call _ = q at hend ⊢
  cases hend with
  | ok h => exact .ok (.through e h)
  | error h => exact .error (.through e h)

theorem agree_query {α : Type} {q : Query α} (h : Blind q) :
    Agree Alike (modifyGet q : Action α) (modifyGet q) := by
  apply agree_modifyGet
  rintro _ _ ⟨e, hcd⟩
  rw [h, h]
  exact ⟨rfl, .through (q e).2 hcd⟩

theorem agree_update {u : Exchange → Exchange} (h : ∀ e c, u (e.through c) = (u e).through c) :
    Agree Alike (modify u : Action PUnit) (modify u) := by
  apply agree_modify
  rintro _ _ ⟨e, hcd⟩
  rw [h, h]
  exact .through (u e) hcd

theorem agree_status {α : Type} (view : Status → α) :
    Agree Alike (do return view (← get).status : Action α) (do return view (← get).status) := by
  apply agree_get_bind
  rintro _ _ ⟨e, -⟩
  exact agree_pure _

theorem agree_queueing (change : Queue → Except Fault Queue) :
    Agree Alike (queueing change) (queueing change) := by
  rintro _ _ ⟨e, hcd⟩
  unfold queueing
  dsimp only [through]
  cases change e.queue with
  | ok queue => exact .ok (.through { e with queue } hcd)
  | error fault => exact .error (.through e hcd)

theorem agree_echoBehind (before : Option Attribute) (attributes : List Attribute) :
    Agree Alike (echoBehind before attributes) (echoBehind before attributes) := by
  induction attributes generalizing before with
  | nil => exact agree_pure _
  | cons a attributes ih =>
    have hcopy := (agree_queueing (Queue.addCopy a.group a)).bind fun _ =>
      (agree_query (blind_claim a.group a.tag a.name)).bind fun _ => ih (some a)
    exact agree_ite ((agree_queueing _).bind fun _ => hcopy) hcopy

theorem agree_echo : Agree Alike echo echo := by
  apply agree_get_bind
  rintro _ _ ⟨e, -⟩
  exact (agree_echoBehind none e.request).bind fun _ => agree_pure _

/-! ## Reading the request -/

theorem agree_headerFields : Agree Alike headerFields headerFields := by
  apply (agree_onChannel Channel.agree_getByte).bind
  intro major
  apply (agree_update fun _ _ => rfl).bind
  intro _
  apply (agree_onChannel Channel.agree_getByte).bind
  intro minor
  apply (agree_update fun _ _ => rfl).bind
  intro _
  apply (agree_onChannel Channel.agree_getUInt16).bind
  intro operation
  apply (agree_update fun _ _ => rfl).bind
  intro _
  apply (agree_onChannel Channel.agree_getUInt32).bind
  intro requestId
  exact agree_update fun _ _ => rfl

-- Whether the request is long enough is seen before anything is read, from the declared length.
theorem sameEnd_parseHeader (e : Exchange) {c d : Channel} (h : c.Alike d)
    (hdeclared : c.remaining = d.remaining ∨ (e.through c).DeclaresEnough ∧ (e.through d).DeclaresEnough) :
    SameEnd Alike (parseHeader (e.through c)) (parseHeader (e.through d)) := by
  by_cases hboth : (e.through c).DeclaresEnough ∧ (e.through d).DeclaresEnough
  · rw [parseHeader_of_enough hboth.1, parseHeader_of_enough hboth.2]
    exact agree_headerFields _ _ (.through e h)
  · -- A length that is too short was declared, and the same for both.
    have hsame : c.remaining = d.remaining := hdeclared.resolve_right hboth
    have hiff : (e.through c).DeclaresEnough ↔ (e.through d).DeclaresEnough := by
      show (∀ n, c.remaining = some n → _) ↔ (∀ n, d.remaining = some n → _)
      rw [hsame]
    have hc : ¬(e.through c).DeclaresEnough := fun hc => hboth ⟨hc, hiff.mp hc⟩
    have hd : ¬(e.through d).DeclaresEnough := fun hd => hboth ⟨hiff.mpr hd, hd⟩
    obtain ⟨n, hn, hfault⟩ := parseHeader_of_not_enough hc
    obtain ⟨m, hm, hfault'⟩ := parseHeader_of_not_enough hd
    have hnm : n = m := Option.some.inj ((hn.symm.trans hsame).trans hm)
    rw [hfault, hfault', hnm]
    exact .error (.through e h)

theorem traced_through (e : Exchange) (c : Channel) :
    (if (e.through c).traceRequests then (e.through c).note (e.through c).traceEvent else e.through c) =
      (if e.traceRequests then e.note e.traceEvent else e).through c := by
  by_cases htrace : e.traceRequests = true
  · have hsame : (e.through c).traceRequests = true := htrace
    rw [if_pos htrace, if_pos hsame]
    rfl
  · have hsame : ¬(e.through c).traceRequests = true := htrace
    rw [if_neg htrace, if_neg hsame]

theorem agree_parseBody : Agree Alike parseBody parseBody := by
  rintro _ _ ⟨e, hcd⟩
  have hend := Reader.agree_read _ _ (.through { channel := e.channel } hcd)
  unfold parseBody
  change SameEnd Reader.Alike (Reader.read { channel := (e.through _).channel })
    (Reader.read { channel := (e.through _).channel }) at hend
  generalize Reader.read _ = p at hend ⊢
  generalize Reader.read _ = q at hend ⊢
  cases hend with
  | error h =>
    rcases h with ⟨r, h⟩
    exact .error (.through (e.adopt r) h)
  | ok h =>
    rcases h with ⟨r, h⟩
    let e' : Exchange := { e.adopt r with status := Status.ok }
    have htraced := Alike.through (if e'.traceRequests then e'.note e'.traceEvent else e') h
    rw [← traced_through, ← traced_through] at htraced
    exact .ok htraced

theorem sameEnd_prepare (e : Exchange) {c d : Channel} (h : c.Alike d)
    (hdeclared : c.remaining = d.remaining ∨ (e.through c).DeclaresEnough ∧ (e.through d).DeclaresEnough) :
    SameEnd Alike (prepare (e.through c)) (prepare (e.through d)) := by
  have hparse : SameEnd Alike (parse (e.through c)) (parse (e.through d)) :=
    (sameEnd_parseHeader e h hdeclared).bind fun _ => agree_parseBody
  have hlast := (agree_queueing Queue.addStandard).bind fun _ =>
    agree_status fun status => decide (status = Status.ok)
  apply hparse.bind
  intro _
  apply (agree_query blind_precheck).bind
  intro failed
  cases failed with
  | none => exact hlast
  | some status => exact (agree_update fun _ _ => rfl).bind fun _ => hlast

/-! ## Sending the reply -/

theorem agree_putEncoding (encoding : Encoding) :
    Agree Channel.Alike (putEncoding encoding) (putEncoding encoding) := by
  apply (Channel.agree_putBytes encoding.bytes).bind
  intro _
  cases encoding.fault with
  | none => exact Channel.agree_flush
  | some fault => exact agree_throw fault

theorem agree_sendFile (header : Bool) (content : List UInt8) :
    Agree Channel.Alike (sendFile header content) (sendFile header content) :=
  (Channel.agree_putBytes _).bind fun _ =>
    (Channel.agree_copyFile content).bind fun _ => Channel.agree_flush

theorem agree_sendQueue (header : Bool) : Agree Alike (sendQueue header) (sendQueue header) := by
  rintro _ _ ⟨e, hcd⟩
  unfold sendQueue
  rw [sweep_through, sweep_through]
  by_cases hempty : e.sweep.queue.operation.isEmpty = true
  · have hsame : ∀ c, (e.sweep.through c).queue.operation.isEmpty = true := fun _ => hempty
    rw [if_pos (hsame _), if_pos (hsame _)]
    exact .error (.through e.sweep hcd)
  · have hsame : ∀ c, ¬(e.sweep.through c).queue.operation.isEmpty = true := fun _ => hempty
    rw [if_neg (hsame _), if_neg (hsame _)]
    exact agree_onChannel (agree_putEncoding _) _ _ (.through e.sweep hcd)

theorem agree_sendReply (header : Bool) : Agree Alike (sendReply header) (sendReply header) := by
  rintro _ _ ⟨e, hcd⟩
  unfold sendReply
  by_cases hreplied : e.replied = true
  · have hsame : ∀ c, (e.through c).replied = true := fun _ => hreplied
    rw [if_pos (hsame _), if_pos (hsame _)]
    exact .error (.through e hcd)
  have hsame : ∀ c, ¬(e.through c).replied = true := fun _ => hreplied
  rw [if_neg (hsame _), if_neg (hsame _)]
  dsimp only [through]
  cases e.substitute with
  | some content =>
    exact agree_onChannel (agree_sendFile header content) _ _
      (.through { e with replied := true, substitute := none } hcd)
  | none =>
    exact agree_sendQueue header _ _ (.through { e with replied := true, substitute := none } hcd)

theorem agree_answer (emitHeader : Bool) : Agree Alike (answer emitHeader) (answer emitHeader) := by
  have hsend := (agree_sendReply emitHeader).bind fun _ => agree_status id
  apply agree_get_bind
  rintro _ _ ⟨e, -⟩
  dsimp only [through]
  cases statusMessage? e.status with
  | none => exact hsend
  | some text => exact (agree_queueing _).bind fun _ => hsend

/-! ## The end -/

-- Closing succeeds and finishes the channel.
theorem close_through (e : Exchange) {c : Channel} (h : c.Fit) :
    ∃ d, close (e.through c) = .ok () { e with channel := d, closed := true } ∧ c.Finished d := by
  obtain ⟨d, hfinish, hfinished⟩ := h.finish
  refine ⟨d, ?_, hfinished⟩
  unfold close onChannel
  dsimp only [through]
  rw [hfinish]
  rfl

end Ipp.Exchange
