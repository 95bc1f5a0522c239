import Ipp.Exchange.Claim
import Ipp.Proofs.Reply.Queue

/-!
# What claims take

Every claim looks for the first attribute of its key. That one leaves the request, and is queued as
unsupported when the claim does not accept it (`Takes`); what is handed out depends on it alone.
-/

namespace Ipp

theorem takeFirst_eq {α : Type} (p : α → Bool) (l : List α) :
    takeFirst p l = (l.find? p).map fun a => (a, l.eraseP p) := by
  induction l with
  | nil => rfl
  | cons a l ih =>
    rw [takeFirst, List.find?_cons, List.eraseP_cons]
    cases hp : p a with
    | true => rfl
    | false =>
      rw [ih]
      cases l.find? p <;> rfl

namespace Exchange

/-! ## Takings -/

theorem demote_eq (e : Exchange) (a : Attribute) :
    e.demote a = { e with queue := e.queue.refuse [a] } :=
  rfl

theorem foldl_demote (e : Exchange) (refused : List Attribute) :
    refused.foldl demote e = { e with queue := e.queue.refuse refused } := by
  induction refused generalizing e with
  | nil => rfl
  | cons a refused ih => exact ih (e.demote a)

/-- The attributes among `found` that are not accepted. -/
def refusedOf (accepts : Attribute → Bool) (found : Option Attribute) : List Attribute :=
  (found.filter (!accepts ·)).toList

/-- From `e` to `e'` the first attribute of a key has left the request, and is queued as unsupported
unless it is accepted. Apart from that only events are reported. -/
structure Takes (e : Exchange) (key accepts : Attribute → Bool) (e' : Exchange) : Prop where
  request : e'.request = e.request.eraseP key
  queue : e'.queue = e.queue.refuse (refusedOf accepts (e.request.find? key))
  rest : e' = { e with request := e'.request, queue := e'.queue, log := e'.log }

variable {e : Exchange} {key accepts : Attribute → Bool}

-- Reporting more makes no difference.
theorem Takes.reporting {e' : Exchange} (h : e.Takes key accepts e') (log : List LogEvent) :
    e.Takes key accepts { e' with log } where
  request := h.request
  queue := h.queue
  rest := by
    have := h.rest
    generalize e'.request = request, e'.queue = queue, e'.log = log' at this
    subst this
    rfl

theorem takes_none (h : e.request.find? key = none) : e.Takes key accepts e where
  request := by
    rw [List.eraseP_of_forall_not]
    intro a ha
    exact List.find?_eq_none.mp h a ha
  queue := by rw [h]; rfl
  rest := rfl

theorem takes_accepted {a : Attribute} (h : e.request.find? key = some a)
    (ha : accepts a = true) (log : List LogEvent) :
    e.Takes key accepts { e with request := e.request.eraseP key, log } where
  request := rfl
  queue := by
    rw [h, refusedOf, Option.filter_some_neg (by rw [ha]; decide)]
    rfl
  rest := rfl

theorem takes_refused {a : Attribute} (h : e.request.find? key = some a)
    (ha : accepts a = false) (log : List LogEvent) :
    e.Takes key accepts { e with
      request := e.request.eraseP key, queue := e.queue.refuse [a], log } where
  request := rfl
  queue := by
    rw [h, refusedOf, Option.filter_some_pos (by rw [ha]; decide)]
    rfl
  rest := rfl

/-! ## Claims of attributes -/

section

variable {g : Group} {t : ValueTag} {n : String} {a : Attribute}

theorem claim_none (h : e.find? g t n = none) : claim g t n e = (none, e) := by
  have h' : e.request.find? (·.isFor g t n) = none := h
  rw [claim, takeFirst_eq, h']
  rfl

theorem claim_some (h : e.find? g t n = some a) :
    claim g t n e = (some a, { e with request := e.request.eraseP (·.isFor g t n) }) := by
  have h' : e.request.find? (·.isFor g t n) = some a := h
  rw [claim, takeFirst_eq, h']
  rfl

theorem claimSingle_none (h : e.find? g t n = none) : claimSingle g t n e = (none, e) := by
  rw [claimSingle, claim_none h]

theorem claimSingle_single (h : e.find? g t n = some a) (ha : a.isSingle = true) :
    claimSingle g t n e = (some a, { e with request := e.request.eraseP (·.isFor g t n) }) := by
  rw [claimSingle, claim_some h]
  exact if_pos ha

theorem claimSingle_several (h : e.find? g t n = some a) (ha : a.isSingle = false) :
    claimSingle g t n e = (none, { e with
      request := e.request.eraseP (·.isFor g t n)
      queue := e.queue.refuse [a]
      log := e.log ++ [notSingle n a] }) := by
  rw [claimSingle, claim_some h]
  exact if_neg (by rw [ha]; decide)

end

variable (g : Group) (t : ValueTag) (n : String) (e : Exchange)

-- A claim hands out what `find?` shows.
theorem claim_takes :
    (claim g t n e).1 = e.find? g t n ∧
      e.Takes (·.isFor g t n) (fun _ => true) (claim g t n e).2 := by
  cases h : e.find? g t n with
  | none =>
    rw [claim_none h]
    exact ⟨rfl, takes_none h⟩
  | some a =>
    rw [claim_some h]
    exact ⟨rfl, takes_accepted h rfl e.log⟩

theorem claimSingle_takes :
    (claimSingle g t n e).1 = (e.find? g t n).filter Attribute.isSingle ∧
      e.Takes (·.isFor g t n) Attribute.isSingle (claimSingle g t n e).2 := by
  cases h : e.find? g t n with
  | none =>
    rw [claimSingle_none h]
    exact ⟨rfl, takes_none h⟩
  | some a =>
    cases ha : a.isSingle with
    | true =>
      rw [claimSingle_single h ha, Option.filter_some_pos ha]
      exact ⟨rfl, takes_accepted h ha e.log⟩
    | false =>
      rw [claimSingle_several h ha, Option.filter_some_neg (by rw [ha])]
      exact ⟨rfl, takes_refused h ha _⟩

/-! ## Claims of values -/

theorem only?_of_isSingle {a : Attribute} (h : a.isSingle = true) : a.only? = a.values.head? := by
  obtain ⟨v, hv⟩ := List.length_eq_one_iff.mp (beq_iff_eq.mp h)
  rw [Attribute.only?, hv]
  rfl

theorem only?_of_several {a : Attribute} (h : a.isSingle = false) : a.only? = none := by
  have hlen : a.values.length ≠ 1 := by simpa [Attribute.isSingle] using h
  rw [Attribute.only?]
  split
  · next v hv => exact absurd (by rw [hv]; rfl) hlen
  · rfl

/-- Whether the attribute has one value, and that one is usable. -/
def isUsable {α : Type} (use : Value → Option α) (a : Attribute) : Bool :=
  (a.only?.bind use).isSome

-- A claim of a value hands out what can be made of the only value of what `find?` shows.
theorem claimValue_takes {α : Type} (use : Value → Option α) :
    (claimValue use g t n e).1 = (e.find? g t n).bind (·.only?.bind use) ∧
      e.Takes (·.isFor g t n) (isUsable use) (claimValue use g t n e).2 := by
  cases h : e.find? g t n with
  | none =>
    rw [claimValue, claimSingle_none h]
    exact ⟨rfl, takes_none h⟩
  | some a =>
    cases ha : a.isSingle with
    | false =>
      have hr : isUsable use a = false := by rw [isUsable, only?_of_several ha]; rfl
      rw [claimValue, claimSingle_several h ha, Option.bind_some, only?_of_several ha]
      exact ⟨rfl, takes_refused h hr _⟩
    | true =>
      rw [claimValue, claimSingle_single h ha, Option.bind_some, only?_of_isSingle ha]
      cases hu : a.values.head?.bind use with
      | some v =>
        have hr : isUsable use a = true := by rw [isUsable, only?_of_isSingle ha, hu]; rfl
        simp only [hu, true_and]
        exact takes_accepted h hr _
      | none =>
        have hr : isUsable use a = false := by rw [isUsable, only?_of_isSingle ha, hu]; rfl
        simp only [hu, true_and]
        exact takes_refused h hr _

/-- The URI that a value spells. -/
def uri? (readDomain : Uri.DomainReader) (v : Value) : Option Uri :=
  v.string?.bind fun s => (Uri.parseWith readDomain s).toOption

-- A claim changes nothing of how domains are read.
theorem readDomain_claimSingle : (claimSingle g t n e).2.readDomain = e.readDomain := by
  rw [(claimSingle_takes g t n e).2.rest]

-- The claim of a URI is one of its value, and reports more.
theorem claimUri_eq : ∃ log, claimUri g n e =
    ((claimValue (uri? e.readDomain) g .uri n e).1,
      { (claimValue (uri? e.readDomain) g .uri n e).2 with log }) := by
  rw [claimUri, claimValue, ← readDomain_claimSingle g .uri n e]
  cases claimSingle g .uri n e with
  | mk found e' =>
    cases found with
    | none => exact ⟨e'.log, rfl⟩
    | some a =>
      have huri : a.values.head?.bind (uri? e'.readDomain) =
          (a.values.head?.bind Value.string?).bind fun s => (Uri.parseWith e'.readDomain s).toOption := by
        cases a.values.head? <;> rfl
      simp only [huri]
      cases a.values.head?.bind Value.string? with
      | none => exact ⟨e'.log, rfl⟩
      | some s =>
        cases hp : Uri.parseWith e'.readDomain s with
        | ok uri => exact ⟨e'.log, by simp only [Option.map_some, Option.bind_some, hp]; rfl⟩
        | error fault =>
          refine ⟨(e'.note (unusableUri n fault)).log, ?_⟩
          simp only [Option.map_some, Option.bind_some, hp]
          rfl

theorem claimUri_takes :
    (claimUri g n e).1 = (e.find? g .uri n).bind (·.only?.bind (uri? e.readDomain)) ∧
      e.Takes (·.isFor g .uri n) (isUsable (uri? e.readDomain)) (claimUri g n e).2 := by
  obtain ⟨hfound, htakes⟩ := claimValue_takes g .uri n e (uri? e.readDomain)
  obtain ⟨log, heq⟩ := claimUri_eq g n e
  rw [heq]
  exact ⟨hfound, htakes.reporting log⟩

theorem claimBoolean_takes (default : Bool) :
    (claimBoolean g n default e).1 =
        ((e.find? g .boolean n).bind (·.only?.bind Value.boolean?)).getD default ∧
      e.Takes (·.isFor g .boolean n) (isUsable Value.boolean?) (claimBoolean g n default e).2 := by
  obtain ⟨hfound, htakes⟩ := claimValue_takes g .boolean n e Value.boolean?
  exact ⟨congrArg (·.getD default) hfound, htakes⟩

/-- The name under which a request states its user. -/
def userName : String := "requesting-user-name"

theorem claimIdentity_takes (authenticated : Bool) :
    e.Takes (·.isFor .operation .name userName) (isUsable Value.string?)
      (claimIdentity authenticated e).2 := by
  obtain ⟨-, htakes⟩ := claimValue_takes .operation .name userName e Value.string?
  suffices h : ∃ log, (claimIdentity authenticated e).2 =
      { (claimString .operation .name userName e).2 with log } by
    obtain ⟨log, heq⟩ := h
    rw [heq]
    exact htakes.reporting log
  rw [claimIdentity]
  simp only [userName]
  rcases claimString .operation .name "requesting-user-name" e with ⟨_ | claimed, e'⟩
  · exact ⟨e'.log, rfl⟩
  · dsimp only
    split
    · next _ _ claimed remote _ _ =>
      by_cases hne : claimed ≠ remote
      · exact ⟨(e'.note (userMismatch claimed remote)).log, if_pos hne⟩
      · exact ⟨e'.log, if_neg hne⟩
    · exact ⟨e'.log, rfl⟩

end Exchange
end Ipp
