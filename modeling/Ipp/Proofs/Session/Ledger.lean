import Ipp.Proofs.Exchange.Identity
import Ipp.Proofs.Session.Composing

/-!
# Claims and a ledger of them

Each of the nine claims looks for one attribute, and what it hands out is the attribute itself or what its
only value means (`Session.step_yields`). A ledger follows along the calls which attributes the caller has in
hands and which were refused; calls other than claims and demotions leave all of them where they are
(`Session.spares_of_allows`).
-/

namespace Ipp

open Calls

/-! ## Claims -/

/-- The key of a claim, and which attributes it hands out. -/
structure Claim where
  group : Group
  tag : ValueTag
  name : String
  accepts : Attribute → Bool

namespace Claim

def key (c : Claim) (a : Attribute) : Bool :=
  a.isFor c.group c.tag c.name

/-- What is found under the key. -/
def found (c : Claim) (e : Exchange) : Option Attribute :=
  e.find? c.group c.tag c.name

end Claim

namespace Call

/-- The claim that the call makes, where domains are read in this way. -/
def claim? (readDomain : Uri.DomainReader) : Call → Option Claim
  | .claim g t n => some ⟨g, t, n, fun _ => true⟩
  | .claimSingle g t n => some ⟨g, t, n, Attribute.isSingle⟩
  | .claimString g t n => some ⟨g, t, n, Exchange.isUsable Value.string?⟩
  | .claimUri g n => some ⟨g, .uri, n, Exchange.isUsable (Exchange.uri? readDomain)⟩
  | .claimPositive g n => some ⟨g, .integer, n, Exchange.isUsable Exchange.positive?⟩
  | .claimEnum g n => some ⟨g, .enumeration, n, Exchange.isUsable Value.integer?⟩
  | .claimBoolean g n _ => some ⟨g, .boolean, n, Exchange.isUsable Value.boolean?⟩
  | .claimKeyword g n allowed => some ⟨g, .keyword, n, Exchange.isUsable (Exchange.allowed? allowed)⟩
  | .claimIdentity _ => some ⟨.operation, .name, Exchange.userName, Exchange.isUsable Value.string?⟩
  | _ => none

/-- Whether the caller is handed the attribute itself, and not only its value. -/
def hands : Call → Bool
  | .claim .. | .claimSingle .. => true
  | _ => false

end Call

/-- What is found is meant by the only value of the attribute, or there is neither. -/
def ReadOff {α : Type} (Means : Value → α → Prop) (taken : Option Attribute) (found : Option α) : Prop :=
  (taken = none ∧ found = none) ∨
    ∃ a v x, taken = some a ∧ a.values = [v] ∧ Means v x ∧ found = some x

/-- A claim that hands over this attribute, or none, is answered by it or by its value. Without an attribute
there is no value, and the default counts, or that nobody is stated. -/
def Call.Yields (e : Exchange) (taken : Option Attribute) : Call → Answer → Prop
  | .claim .., answer | .claimSingle .., answer => answer = .attribute taken
  | .claimString .., answer =>
    ∃ found, ReadOff (fun v text => v = .string text) taken found ∧ answer = .text found
  | .claimUri .., answer =>
    ∃ found, ReadOff (fun v u => ∃ text, v = .string text ∧ Uri.parseWith e.readDomain text = .ok u) taken
      found ∧ answer = .uri found
  | .claimPositive .., answer =>
    ∃ found, ReadOff (fun v k => v = .integer k ∧ 0 < k) taken found ∧ answer = .number found
  | .claimEnum .., answer =>
    ∃ found, ReadOff (fun v k => v = .integer k) taken found ∧ answer = .number found
  | .claimBoolean _ _ default, answer =>
    ∃ found, ReadOff (fun v b => v = .boolean b) taken found ∧ answer = .flag (found.getD default)
  | .claimKeyword _ _ allowed, answer =>
    ∃ found, ReadOff (fun v text => v = .string text ∧ text ∈ allowed) taken found ∧ answer = .text found
  | .claimIdentity authenticated, answer =>
    ∃ found, ReadOff (fun v text => v = .string text) taken found ∧ answer = .text (some
      (Exchange.located (Exchange.actingUser authenticated found e.remoteUser) e.remoteAddr))
  | _, _ => False

/-! ## Ledgers -/

structure Ledger where
  -- The positions of the attributes that the caller was handed and has not demoted.
  kept : List Nat := []
  -- The attributes of which the caller was handed the value.
  used : List Attribute := []
  -- The attributes that were refused, by a claim or by the caller.
  refused : List Attribute := []

namespace Ledger

/-- All attributes in the hands of the caller, who was handed `held`. -/
def handed (l : Ledger) (held : List Attribute) : List Attribute :=
  l.kept.filterMap (held[·]?) ++ l.used

/-- What a claim makes of the attribute that it finds. -/
def take (l : Ledger) (hands : Bool) (position : Nat) (c : Claim) (a : Attribute) : Ledger :=
  if c.accepts a then
    if hands then { l with kept := l.kept ++ [position] } else { l with used := l.used ++ [a] }
  else { l with refused := l.refused ++ [a] }

/-- The ledger after a call. -/
def after (l : Ledger) (call : Call) (s : Session) : Ledger :=
  match call.claim? s.exchange.readDomain, call with
  | some c, call => (c.found s.exchange).elim l (l.take call.hands s.held.length c)
  | none, .demote (.held position) =>
    (s.held[position]?).elim l fun a =>
      { l with kept := l.kept.erase position, refused := l.refused ++ [a] }
  | none, _ => l

/-- Only what the caller keeps is demoted, so each attribute at most once; everything that is queued has a
name and goes into one of the other groups; and the request is neither read again nor worked off as a
whole. -/
def Allows (l : Ledger) : Call → Prop
  | .demote (.held position) => position ∈ l.kept
  | .addCopy g a => g ≠ .unsupported ∧ a.IsRead
  | .addInteger g _ name _ | .addIntegers g _ name _ | .addString g _ name _ | .addStrings g _ name _
  | .addBoolean g _ name _ | .addOutOfBand g _ name | .addTemplate g _ name _ _
  | .addTemplates g _ name _ _ => g ≠ .unsupported ∧ name ≠ ""
  | .demote (.made _) | .parse | .parseHeader | .parseBody | .echo | .classify _ | .sendReply _ => False
  | _ => True

end Ledger

/-- The ledger after calls that are made one after the other. -/
def Ledger.afterAll (l : Ledger) : List Call → Session → Ledger
  | [], _ => l
  | call :: calls, s => (l.after call s).afterAll calls (s.step call).2

def Ledger.AllowsAll (l : Ledger) : List Call → Session → Prop
  | [], _ => True
  | call :: calls, s => l.Allows call ∧ (l.after call s).AllowsAll calls (s.step call).2

/-! ## One call -/

namespace Session

variable {s : Session} {call : Call}

-- A claim takes what it finds, and the caller holds what the claim hands out.
theorem step_claim {c : Claim} (h : call.claim? s.exchange.readDomain = some c) :
    s.exchange.Takes c.key c.accepts (s.step call).2.exchange ∧
      (s.step call).2.held = s.held ++
        if call.hands then ((c.found s.exchange).filter c.accepts).toList else [] := by
  rw [step_eq]
  cases call with
  | claim g t n =>
    cases h
    obtain ⟨hfound, htakes⟩ := Exchange.claim_takes g t n s.exchange
    refine ⟨htakes, ?_⟩
    show s.held ++ (Exchange.claim g t n s.exchange).1.toList =
      s.held ++ ((s.exchange.find? g t n).filter fun _ => true).toList
    rw [hfound]
    cases s.exchange.find? g t n <;> rfl
  | claimSingle g t n =>
    cases h
    obtain ⟨hfound, htakes⟩ := Exchange.claimSingle_takes g t n s.exchange
    refine ⟨htakes, ?_⟩
    show s.held ++ (Exchange.claimSingle g t n s.exchange).1.toList =
      s.held ++ ((s.exchange.find? g t n).filter Attribute.isSingle).toList
    rw [hfound]
  | claimString g t n =>
    cases h
    exact ⟨(Exchange.claimValue_takes g t n s.exchange _).2, (List.append_nil _).symm⟩
  | claimUri g n =>
    cases h
    exact ⟨(Exchange.claimUri_takes g n s.exchange).2, (List.append_nil _).symm⟩
  | claimPositive g n =>
    cases h
    exact ⟨(Exchange.claimValue_takes g _ n s.exchange _).2, (List.append_nil _).symm⟩
  | claimEnum g n =>
    cases h
    exact ⟨(Exchange.claimValue_takes g _ n s.exchange _).2, (List.append_nil _).symm⟩
  | claimBoolean g n default =>
    cases h
    exact ⟨(Exchange.claimBoolean_takes g n s.exchange default).2, (List.append_nil _).symm⟩
  | claimKeyword g n allowed =>
    cases h
    exact ⟨(Exchange.claimValue_takes g _ n s.exchange _).2, (List.append_nil _).symm⟩
  | claimIdentity authenticated =>
    cases h
    exact ⟨Exchange.claimIdentity_takes s.exchange authenticated, (List.append_nil _).symm⟩
  | _ => cases h

-- What can be made of an only value is read off the attribute that a claim of it accepts.
theorem readOff_of_use {α : Type} {use : Value → Option α} {Means : Value → α → Prop}
    (hmeans : ∀ v x, use v = some x ↔ Means v x) (found : Option Attribute) :
    ReadOff Means (found.filter (Exchange.isUsable use)) (found.bind (·.only?.bind use)) := by
  cases found with
  | none => exact .inl ⟨rfl, rfl⟩
  | some a =>
    rw [Option.bind_some]
    cases huse : a.only?.bind use with
    | none =>
      refine .inl ⟨Option.filter_some_neg ?_, rfl⟩
      rw [Exchange.isUsable, huse]
      rfl
    | some x =>
      obtain ⟨v, hv, hx⟩ := Option.bind_eq_some_iff.mp huse
      refine .inr ⟨a, v, x, Option.filter_some_pos ?_, Attribute.only?_eq_some.mp hv, (hmeans v x).mp hx, rfl⟩
      rw [Exchange.isUsable, huse]
      rfl

-- No claim fails, and each is answered by the attribute that it accepts.
theorem step_yields {c : Claim} (h : call.claim? s.exchange.readDomain = some c) :
    ∃ answer, (s.step call).1.answer = .ok answer ∧
      call.Yields s.exchange ((c.found s.exchange).filter c.accepts) answer := by
  have hvalue {α : Type} {use : Value → Option α} {Means : Value → α → Prop} (g : Group) (t : ValueTag)
      (n : String) (hmeans : ∀ v x, use v = some x ↔ Means v x) :
      ReadOff Means ((s.exchange.find? g t n).filter (Exchange.isUsable use))
        (Exchange.claimValue use g t n s.exchange).1 := by
    rw [(Exchange.claimValue_takes g t n s.exchange use).1]
    exact readOff_of_use hmeans _
  cases call with
  | claim g t n =>
    cases h
    refine ⟨.attribute (Exchange.claim g t n s.exchange).1, rfl, ?_⟩
    show Answer.attribute _ = .attribute ((s.exchange.find? g t n).filter fun _ => true)
    rw [(Exchange.claim_takes g t n s.exchange).1]
    cases s.exchange.find? g t n <;> rfl
  | claimSingle g t n =>
    cases h
    exact ⟨_, rfl, congrArg Answer.attribute (Exchange.claimSingle_takes g t n s.exchange).1⟩
  | claimString g t n =>
    cases h
    exact ⟨_, rfl, _, hvalue g t n fun _ _ => Value.string?_eq_some, rfl⟩
  | claimUri g n =>
    cases h
    refine ⟨_, rfl, (Exchange.claimUri g n s.exchange).1, ?_, rfl⟩
    rw [(Exchange.claimUri_takes g n s.exchange).1]
    exact readOff_of_use (fun _ _ => Exchange.uri?_eq_some) _
  | claimPositive g n =>
    cases h
    exact ⟨_, rfl, _, hvalue g .integer n fun _ _ => Exchange.positive?_eq_some, rfl⟩
  | claimEnum g n =>
    cases h
    exact ⟨_, rfl, _, hvalue g .enumeration n fun _ _ => Value.integer?_eq_some, rfl⟩
  | claimBoolean g n default =>
    cases h
    exact ⟨_, rfl, _, hvalue g .boolean n fun _ _ => Value.boolean?_eq_some, rfl⟩
  | claimKeyword g n allowed =>
    cases h
    exact ⟨_, rfl, _, hvalue g .keyword n fun _ _ => Exchange.allowed?_eq_some, rfl⟩
  | claimIdentity authenticated =>
    cases h
    refine ⟨_, rfl, s.exchange.statedUser?, ?_, ?_⟩
    · exact hvalue .operation .name Exchange.userName fun _ _ => Value.string?_eq_some
    · exact congrArg (Answer.text ∘ some) (Exchange.fst_claimIdentity authenticated s.exchange)
  | _ => cases h

-- A claim that finds nothing hands out nothing.
theorem held_of_absent {c : Claim} (h : call.claim? s.exchange.readDomain = some c)
    (hnone : c.found s.exchange = none) : (s.step call).2.held = s.held := by
  rw [(step_claim h).2, hnone]
  cases call.hands <;> exact List.append_nil s.held

/-- Everything but claims and demotions leaves the request, what the caller holds, and the unsupported
group alone. -/
structure Spares (s s' : Session) : Prop where
  request : s'.exchange.request = s.exchange.request
  held : s'.held = s.held
  unsupported : s'.exchange.queue.attributes .unsupported = s.exchange.queue.attributes .unsupported

theorem spares_queueing {change : Queue → Except Fault Queue}
    (hc : ∀ {q q'}, change q = .ok q' → q'.attributes .unsupported = q.attributes .unsupported) :
    s.Spares (final (build change s)) := by
  cases hq : change s.exchange.queue with
  | ok q =>
    have hcall : build change s =
        .ok .done { s with exchange := { s.exchange with queue := q } } := by
      simp only [build, onExchange, Exchange.queueing, hq, bind, EStateM.bind]
      rfl
    rw [hcall]
    exact ⟨rfl, rfl, hc hq⟩
  | error fault =>
    have hcall : build change s = .error fault s := by
      simp only [build, onExchange, Exchange.queueing, hq, bind, EStateM.bind]
    rw [hcall]
    exact ⟨rfl, rfl, rfl⟩

theorem attributes_insert_of_ne {q : Queue} {a : Attribute} (h : a.group ≠ .unsupported) :
    (q.insert a).attributes .unsupported = q.attributes .unsupported := by
  rw [Queue.attributes_insert, if_neg h, List.append_nil]

theorem spares_build {g : Group} {change : Queue → Except Fault Queue} (hb : Queue.Builds g change)
    (hg : g ≠ .unsupported) : s.Spares (final (build change s)) := by
  refine spares_queueing fun h => ?_
  obtain ⟨a, rfl, -, rfl⟩ := hb h
  exact attributes_insert_of_ne hg

theorem spares_release : s.Spares s.release := by
  rw [Session.release]
  split <;> exact ⟨rfl, rfl, rfl⟩

theorem spares_of_allows {l : Ledger} (h : l.Allows call)
    (hclaim : call.claim? s.exchange.readDomain = none) (hdemote : ∀ handle, call ≠ .demote handle) :
    s.Spares (s.step call).2 := by
  rw [step_eq]
  cases call with
  | claim | claimSingle | claimString | claimUri | claimPositive | claimEnum | claimBoolean
  | claimKeyword | claimIdentity => cases hclaim
  | demote handle => exact absurd rfl (hdemote handle)
  | parse | parseHeader | parseBody | echo | classify | sendReply => exact h.elim
  | header | request | queue | trace | info | find => exact ⟨rfl, rfl, rfl⟩
  | setStatus | rejectOperation | setRemoteUser | setRemoteAddr | setPathInfo | replyFromFile =>
    exact ⟨rfl, rfl, rfl⟩
  | addCopy g handle =>
    rw [perform, get_bind]
    cases s.attribute? handle with
    | none => exact ⟨rfl, rfl, rfl⟩
    | some a =>
      refine spares_queueing fun hcopy => ?_
      rw [Queue.addCopy] at hcopy
      split at hcopy
      · cases hcopy
      · cases hcopy
        exact attributes_insert_of_ne h.1
  | addInteger g t n v => exact spares_build (Queue.builds_addInteger h.2 v) h.1
  | addIntegers g t n vs => exact spares_build (Queue.builds_addIntegers h.2 vs) h.1
  | addString g t n v => exact spares_build (Queue.builds_addString h.2 v) h.1
  | addStrings g t n vs => exact spares_build (Queue.builds_addStrings h.2 vs) h.1
  | addBoolean g t n v => exact spares_build (Queue.builds_addBoolean h.2 v) h.1
  | addOutOfBand g t n => exact spares_build (Queue.builds_addOutOfBand h.2) h.1
  | addTemplate g t n p v => exact spares_build (Queue.builds_addTemplate h.2 p v) h.1
  | addTemplates g t n p vs => exact spares_build (Queue.builds_addTemplates h.2 p vs) h.1
  | addEnd g =>
    refine spares_queueing fun {q q'} hend => ?_
    cases g <;> cases hend <;> rfl
  | addStandard =>
    refine spares_queueing fun hadd => ?_
    obtain ⟨a, b, ⟨ha, -⟩, ⟨hb, -⟩, rfl⟩ := Queue.addStandard_ok hadd
    rw [attributes_insert_of_ne (by rw [hb]; decide), attributes_insert_of_ne (by rw [ha]; decide)]
  | forwardRequest sink =>
    have hforward : ∃ c, (s.exchange.forwardRequest sink).exchange = { s.exchange with channel := c } := by
      rw [Exchange.forwardRequest, Exchange.onChannel]
      cases Channel.rewind s.exchange.channel <;> exact ⟨_, rfl⟩
    obtain ⟨c, hc⟩ := hforward
    have hcall : final (perform (.forwardRequest sink) s) =
        { s with exchange := { s.exchange with channel := c } } := by
      rw [← hc]
      rfl
    rw [hcall]
    exact ⟨rfl, rfl, rfl⟩
  | readDocument sink => exact ⟨rfl, rfl, rfl⟩
  | isRequested name =>
    have hasked : s.Spares (Session.isRequested name s).2 := by
      rw [Session.isRequested]
      split <;> exact ⟨rfl, rfl, rfl⟩
    exact ⟨hasked.request, hasked.held, hasked.unsupported⟩
  | release => exact ⟨spares_release.request, spares_release.held, spares_release.unsupported⟩

end Session

end Ipp
