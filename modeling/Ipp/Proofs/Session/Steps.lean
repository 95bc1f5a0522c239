import Ipp.Proofs.Exchange.Sifting

/-!
# What one call does

Every call reads on in the request, works on the exchange, or sends the reply. Most properties of sessions
ask for no more than that. A call that only looks and claims does less: it sifts the request.
-/

namespace Ipp

open Calls

/-- The call reads the header or the attribute section. -/
def Call.parses : Call → Bool
  | .parse | .parseHeader | .parseBody => true
  | _ => false

/-- The call only looks at the exchange, or claims from the request. -/
def Call.claims : Call → Bool
  | .header | .request | .queue | .trace | .info | .find .. | .claim .. | .claimSingle .. | .claimString ..
  | .claimUri .. | .claimPositive .. | .claimEnum .. | .claimBoolean .. | .claimKeyword ..
  | .claimIdentity _ | .classify _ | .isRequested _ | .release => true
  | _ => false

namespace Session

/-- What `call` does to the exchange, whether it fails or not. -/
inductive Moves (call : Call) (e e' : Exchange) : Prop
  | parses (call : call.parses = true) (parses : e.Parses e')
  | works (works : e.Works e')
  | replies (header : Bool) (replied : e' = final (e.sendReply header))

/-! ## Calls of an exchange -/

theorem answer_onExchange {α : Type} (x : Exchange.Action α) (answer : α → Answer) (s : Session) :
    (do return answer (← onExchange x) : Action Answer) s =
      match x s.exchange with
      | .ok a e => .ok (answer a) { s with exchange := e }
      | .error fault e => .error fault { s with exchange := e } := by
  cases hx : x s.exchange with
  | ok a e =>
    have hcall : onExchange x s = .ok a { s with exchange := e } := by rw [onExchange, hx]
    exact bind_of_ok hcall _
  | error fault e =>
    have hcall : onExchange x s = .error fault { s with exchange := e } := by rw [onExchange, hx]
    exact bind_of_error hcall _

theorem exchange_final_onExchange {α : Type} (x : Exchange.Action α) (answer : α → Answer)
    (s : Session) :
    (final ((do return answer (← onExchange x) : Action Answer) s)).exchange =
      final (x s.exchange) := by
  rw [answer_onExchange]
  cases x s.exchange <;> rfl

theorem works_onExchange {α : Type} {x : Exchange.Action α} (hx : Keeps Exchange.Works x)
    (answer : α → Answer) (s : Session) :
    s.exchange.Works (final ((do return answer (← onExchange x) : Action Answer) s)).exchange := by
  rw [exchange_final_onExchange]
  exact hx s.exchange

theorem works_build (change : Queue → Except Fault Queue) (s : Session) :
    s.exchange.Works (final (build change s)).exchange :=
  works_onExchange (Exchange.keepsWorks_queueing change) (fun _ => .done) s

theorem release_sifts (s : Session) : s.exchange.Sifts s.release.exchange := by
  rw [release]
  cases s.wellKnown with
  | none => exact .refl _
  | some w => exact ⟨.refl _, ⟨[], nofun, rfl⟩, rfl⟩

theorem isRequested_sifts (name : String) (s : Session) :
    s.exchange.Sifts (isRequested name s).2.exchange := by
  rw [isRequested]
  cases s.wellKnown <;> exact .refl _

/-! ## Every call -/

theorem sifts_perform {call : Call} (hcall : call.claims = true) (s : Session) :
    s.exchange.Sifts (final (perform call s)).exchange := by
  have hvalue : ∀ {α : Type} (use : Value → Option α) (g : Group) (t : ValueTag) (n : String),
      s.exchange.Sifts (Exchange.claimValue use g t n s.exchange).2 :=
    fun use g t n => (Exchange.claimValue_takes g t n s.exchange use).2.sifts
  cases call with
  | header | request | queue | trace | info | find => exact .refl _
  | claim g t n => exact (Exchange.claim_takes g t n s.exchange).2.sifts
  | claimSingle g t n => exact (Exchange.claimSingle_takes g t n s.exchange).2.sifts
  | claimString g t n => exact hvalue Value.string? g t n
  | claimUri g n => exact (Exchange.claimUri_takes g n s.exchange).2.sifts
  | claimPositive g n => exact hvalue Exchange.positive? g .integer n
  | claimEnum g n => exact hvalue Value.integer? g .enumeration n
  | claimBoolean g n default => exact (Exchange.claimBoolean_takes g n s.exchange default).2.sifts
  | claimKeyword g n allowed => exact hvalue (Exchange.allowed? allowed) g .keyword n
  | claimIdentity authenticated => exact (Exchange.claimIdentity_takes s.exchange authenticated).sifts
  | classify caps =>
    have hreleased := release_sifts { s with exchange := (WellKnown.classify caps s.exchange).2 }
    exact (Exchange.classify_sifts caps s.exchange).trans hreleased
  | isRequested name => exact isRequested_sifts name s
  | release => exact release_sifts s
  | parse | parseHeader | parseBody | demote | addCopy | echo | addInteger | addIntegers | addString
  | addStrings | addBoolean | addOutOfBand | addTemplate | addTemplates | addEnd | addStandard | setStatus
  | rejectOperation | setRemoteUser | setRemoteAddr | setPathInfo | sendReply | replyFromFile
  | forwardRequest | readDocument => cases hcall

/-- A call reads on in the request, works on the exchange, or is the one that sends the reply. -/
theorem perform_cases (call : Call) (s : Session) :
    (call.parses = true ∧ s.exchange.Parses (final (perform call s)).exchange) ∨
      s.exchange.Works (final (perform call s)).exchange ∨
      ∃ header, call = .sendReply header ∧
        (final (perform call s)).exchange = final (s.exchange.sendReply header) := by
  have hparses : ∀ {x : Exchange.Action Unit}, Keeps Exchange.Parses x →
      s.exchange.Parses (final ((do onExchange x; return .done : Action Answer) s)).exchange := by
    intro x hx
    rw [exchange_final_onExchange x (fun _ => .done)]
    exact hx s.exchange
  by_cases hclaims : call.claims = true
  · exact .inr (.inl (sifts_perform hclaims s).works)
  cases call with
  | parse => exact .inl ⟨rfl, hparses Exchange.keeps_parse⟩
  | parseHeader => exact .inl ⟨rfl, hparses Exchange.keeps_parseHeader⟩
  | parseBody => exact .inl ⟨rfl, hparses Exchange.keeps_parseBody⟩
  | demote handle =>
    rw [perform, get_bind]
    cases s.attribute? handle with
    | none => exact .inr (.inl (.refl _))
    | some a => exact .inr (.inl ⟨.refl _, .refl _, rfl, rfl, rfl, rfl⟩)
  | addCopy g handle =>
    rw [perform, get_bind]
    cases s.attribute? handle with
    | none => exact .inr (.inl (.refl _))
    | some a => exact .inr (.inl (works_build _ s))
  | echo => exact .inr (.inl (works_onExchange Exchange.keepsWorks_echo .count s))
  | addInteger | addIntegers | addString | addStrings | addBoolean | addOutOfBand | addTemplate
  | addTemplates | addEnd | addStandard => exact .inr (.inl (works_build _ s))
  | setStatus | rejectOperation | setRemoteUser | setRemoteAddr | setPathInfo | replyFromFile =>
    exact .inr (.inl ⟨.refl _, .refl _, rfl, rfl, rfl, rfl⟩)
  | sendReply header =>
    exact .inr (.inr ⟨header, rfl,
      exchange_final_onExchange (Exchange.sendReply header) (fun _ => .done) s⟩)
  | forwardRequest sink => exact .inr (.inl (Exchange.forwardRequest_works sink s.exchange))
  | readDocument sink =>
    exact .inr (.inl (Exchange.works_channel (Channel.reads_copyRest sink s.exchange.channel)))
  | header | request | queue | trace | info | find | claim | claimSingle | claimString | claimUri
  | claimPositive | claimEnum | claimBoolean | claimKeyword | claimIdentity | classify | isRequested
  | release => exact absurd rfl hclaims

theorem moves_perform (call : Call) (s : Session) :
    Moves call s.exchange (final (perform call s)).exchange := by
  rcases perform_cases call s with ⟨hcall, hparses⟩ | hworks | ⟨header, -, hreplied⟩
  · exact .parses hcall hparses
  · exact .works hworks
  · exact .replies header hreplied

/-! ## Runs -/

theorem step_eq (call : Call) (s : Session) : (s.step call).2 = final (perform call s) := by
  rw [step]
  cases perform call s <;> rfl

theorem step_sendReply (header : Bool) (s : Session) :
    s.step (.sendReply header) =
      match s.exchange.sendReply header with
      | .ok () e =>
        let s : Session := { s with exchange := e }
        (s.observe (.ok .done) (some s.counts), s)
      | .error fault e =>
        let s : Session := { s with exchange := e }
        (s.observe (.error fault) (some s.counts), s) := by
  have hperform := answer_onExchange (Exchange.sendReply header) (fun _ => Answer.done) s
  unfold step
  rw [perform, hperform]
  cases s.exchange.sendReply header <;> rfl

theorem play_induction {P : Exchange → Prop} {calls : List Call}
    (hstep : ∀ call ∈ calls, ∀ s : Session, P s.exchange → P (final (perform call s)).exchange)
    {s : Session} (h : P s.exchange) : P (s.play calls).2.exchange := by
  induction calls generalizing s with
  | nil => exact h
  | cons call calls ih =>
    have hafter := hstep call List.mem_cons_self s h
    rw [← step_eq] at hafter
    exact ih (fun call' hc => hstep call' (List.mem_cons_of_mem call hc)) hafter

/-- What every call keeps is kept by any number of calls. -/
theorem play_keeps {P : Exchange → Prop} {calls : List Call}
    (hstep : ∀ call ∈ calls, ∀ {e e'}, Moves call e e' → P e → P e') {s : Session}
    (h : P s.exchange) : P (s.play calls).2.exchange :=
  play_induction (fun call hc s => hstep call hc (moves_perform call s)) h

theorem sifts_play {calls : List Call} (hcalls : ∀ call ∈ calls, call.claims = true) (s : Session) :
    s.exchange.Sifts (s.play calls).2.exchange :=
  play_induction (P := s.exchange.Sifts)
    (fun call hc t hsifts => hsifts.trans (sifts_perform (hcalls call hc) t)) (.refl _)

end Session
end Ipp
