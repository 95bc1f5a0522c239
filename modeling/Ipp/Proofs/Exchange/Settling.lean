import Ipp.Proofs.Exchange.Claims

/-!
# What a claim of a value settles

A claim of a value has one of three outcomes (`Settles`). No attribute has its key, and nothing happens; or
the first that has it leaves the request, and either its only value is handed out or the attribute is queued
as unsupported, once and as it was. What differs from claim to claim is which values mean something to it
(`typed_claims_settle`).
-/

namespace Ipp

namespace Value

variable {v : Value}

theorem string?_eq_some {s : String} : v.string? = some s ↔ v = .string s := by
  cases v <;> simp [string?]

theorem integer?_eq_some {k : Int32} : v.integer? = some k ↔ v = .integer k := by
  cases v <;> simp [integer?]

theorem boolean?_eq_some {b : Bool} : v.boolean? = some b ↔ v = .boolean b := by
  cases v <;> simp [boolean?]

end Value

namespace Exchange

/-! ## The first of a key -/

/-- `a` is the first attribute of a request that has the key. -/
structure FirstOf (key : Attribute → Bool) (request before : List Attribute) (a : Attribute)
    (after : List Attribute) : Prop where
  split : request = before ++ a :: after
  skipped : ∀ b ∈ before, key b = false
  found : key a = true

section FirstOf

variable {key : Attribute → Bool} {request before after : List Attribute} {a : Attribute}

theorem find?_eq_some_iff_firstOf :
    request.find? key = some a ↔ ∃ before after, FirstOf key request before a after := by
  rw [List.find?_eq_some_iff_append]
  constructor
  · rintro ⟨hfound, before, after, hsplit, hskipped⟩
    exact ⟨before, after, hsplit, fun b hb => by simpa using hskipped b hb, hfound⟩
  · rintro ⟨before, after, hfirst⟩
    exact ⟨hfirst.found, before, after, hfirst.split, fun b hb => by simpa using hfirst.skipped b hb⟩

theorem FirstOf.eraseP_eq (h : FirstOf key request before a after) :
    request.eraseP key = before ++ after := by
  have hskipped : ∀ b ∈ before, ¬key b = true := fun b hb => by simp [h.skipped b hb]
  rw [h.split, List.eraseP_append_right _ hskipped, List.eraseP_cons_of_pos h.found]

end FirstOf

/-! ## Outcomes -/

/-- What a claim hands out, and the exchange it leaves behind. `Means` says what is handed out for a value,
if the value means anything to the claim. -/
inductive Settles {β : Type} (key : Attribute → Bool) (Means : Value → β → Prop) (fallback : β)
    (e : Exchange) : β × Exchange → Prop
  -- Nothing has the key, and nothing changes.
  | absent (none : ∀ a ∈ e.request, key a = false) : Settles key Means fallback e (fallback, e)
  -- The first that has it leaves the request, and nothing else changes.
  | accepted {before after : List Attribute} {a : Attribute} {v : Value} {result : β}
      (first : FirstOf key e.request before a after) (single : a.values = [v])
      (means : Means v result) :
      Settles key Means fallback e (result, { e with request := before ++ after })
  -- It leaves the request, and comes last among what is unsupported.
  | refused {before after : List Attribute} {a : Attribute} (reported : List LogEvent)
      (first : FirstOf key e.request before a after)
      (unusable : ∀ v, a.values = [v] → ∀ result, ¬Means v result) :
      Settles key Means fallback e (fallback, { e with
        request := before ++ after
        queue := { e.queue with
          unsupported := e.queue.unsupported ++ [.attribute { a with group := .unsupported }] }
        log := e.log ++ reported })

section Settles

variable {β γ : Type} {key : Attribute → Bool} {Means : Value → β → Prop} {fallback : β}
  {e : Exchange} {outcome : β × Exchange}

theorem Settles.congr {Means' : Value → β → Prop} (h : Settles key Means fallback e outcome)
    (hmeans : ∀ v result, Means v result ↔ Means' v result) : Settles key Means' fallback e outcome := by
  have heq : Means = Means' := funext fun v => funext fun result => propext (hmeans v result)
  exact heq ▸ h

/-- What is handed out may be turned into something else. -/
theorem Settles.map (h : Settles key Means fallback e outcome) (f : β → γ) :
    Settles key (fun v result => ∃ found, Means v found ∧ result = f found) (f fallback) e
      (f outcome.1, outcome.2) := by
  cases h with
  | absent hnone => exact .absent hnone
  | accepted hfirst hsingle hmeans => exact .accepted hfirst hsingle ⟨_, hmeans, rfl⟩
  | refused reported hfirst hunusable =>
    refine .refused reported hfirst fun v hv result => ?_
    rintro ⟨found, hmeans, -⟩
    exact hunusable v hv found hmeans

end Settles

/-! ## Claims -/

variable (g : Group) (t : ValueTag) (n : String) (e : Exchange)

/-- A claim that asks for one value decides by that value, and by how domains are read: it hands out what it
means, or queues the attribute as unsupported. -/
theorem settles_of_claimSingle {β : Type} {Means : Value → β → Prop} {fallback : β}
    {outcome : β × Exchange} (decides : Attribute → Exchange → β × Exchange)
    (houtcome : outcome = match claimSingle g t n e with
      | (none, e) => (fallback, e)
      | (some a, e) => decides a e)
    (hdecides : ∀ a v e', a.values = [v] → e'.readDomain = e.readDomain →
      (∃ result, Means v result ∧ decides a e' = (result, e')) ∨
      (∀ result, ¬Means v result) ∧
        ∃ reported, decides a e' = (fallback, { e'.demote a with log := e'.log ++ reported })) :
    Settles (·.isFor g t n) Means fallback e outcome := by
  cases hfound : e.find? g t n with
  | none =>
    rw [houtcome, claimSingle_none hfound]
    exact .absent fun a ha => eq_false_of_ne_true (List.find?_eq_none.mp hfound a ha)
  | some a =>
    obtain ⟨before, after, hfirst⟩ := find?_eq_some_iff_firstOf.mp hfound
    cases ha : a.isSingle with
    | false =>
      rw [houtcome, claimSingle_several hfound ha, hfirst.eraseP_eq]
      refine .refused [notSingle n a] hfirst fun v hv => ?_
      rw [Attribute.isSingle, hv] at ha
      cases ha
    | true =>
      obtain ⟨v, hv⟩ := List.length_eq_one_iff.mp (beq_iff_eq.mp ha)
      rw [houtcome, claimSingle_single hfound ha, hfirst.eraseP_eq]
      dsimp only
      rcases hdecides a v { e with request := before ++ after } hv rfl with
        ⟨result, hmeans, hdecided⟩ | ⟨hnone, reported, hdecided⟩
      · rw [hdecided]
        exact .accepted hfirst hv hmeans
      · rw [hdecided]
        refine .refused reported hfirst fun w hw => ?_
        cases hv.symm.trans hw
        exact hnone

theorem claimValue_settles {α : Type} (use : Value → Option α) :
    Settles (·.isFor g t n) (fun v result => ∃ x, use v = some x ∧ result = some x) none e
      (claimValue use g t n e) := by
  refine settles_of_claimSingle g t n e _ rfl fun a v e' hv _ => ?_
  rw [hv, List.head?_cons, Option.bind_some]
  cases use v with
  | some x => exact .inl ⟨some x, ⟨x, rfl, rfl⟩, rfl⟩
  | none =>
    refine .inr ⟨?_, [], ?_⟩
    · rintro result ⟨x, hx, -⟩
      cases hx
    · rw [List.append_nil]
      rfl

theorem claimUri_settles :
    Settles (·.isFor g .uri n)
      (fun v result => ∃ s u, v = .string s ∧ Uri.parseWith e.readDomain s = .ok u ∧ result = some u) none e
      (claimUri g n e) := by
  refine settles_of_claimSingle g .uri n e _ rfl fun a v e' hv hreader => ?_
  rw [hv, List.head?_cons, Option.bind_some, hreader]
  cases hs : v.string? with
  | none =>
    refine .inr ⟨?_, [], ?_⟩
    · rintro result ⟨s, u, rfl, -⟩
      cases hs
    · rw [List.append_nil]
      rfl
  | some s =>
    cases Value.string?_eq_some.mp hs
    rw [Option.map_some]
    cases hu : Uri.parseWith e.readDomain s with
    | ok u => exact .inl ⟨some u, ⟨s, u, rfl, hu, rfl⟩, rfl⟩
    | error fault =>
      refine .inr ⟨?_, [unusableUri n fault], rfl⟩
      rintro result ⟨s', u, hs', hu', -⟩
      cases hs'
      rw [hu] at hu'
      cases hu'

theorem uri?_eq_some {readDomain : Uri.DomainReader} {v : Value} {u : Uri} :
    uri? readDomain v = some u ↔ ∃ text, v = .string text ∧ Uri.parseWith readDomain text = .ok u := by
  rw [uri?, Option.bind_eq_some_iff]
  refine exists_congr fun text => and_congr Value.string?_eq_some ?_
  cases Uri.parseWith readDomain text <;> simp [Except.toOption]

theorem positive?_eq_some {v : Value} {k : Int32} :
    positive? v = some k ↔ v = .integer k ∧ 0 < k := by
  rw [positive?, Option.filter_eq_some_iff, Value.integer?_eq_some, decide_eq_true_iff]

theorem allowed?_eq_some {allowed : List String} {v : Value} {s : String} :
    allowed? allowed v = some s ↔ v = .string s ∧ s ∈ allowed := by
  rw [allowed?, Option.filter_eq_some_iff, Value.string?_eq_some, List.contains_iff_mem]

/-- Whatever is left of the request, the six claims of one value settle as they should. A text must be
UTF-8, and for a URI it must be read as one; a number must be above zero where it is to be positive; a
keyword must be allowed. -/
theorem typed_claims_settle :
    Settles (·.isFor g t n) (fun v result => ∃ s, v = .string s ∧ result = some s) none e
      (claimString g t n e) ∧
    Settles (·.isFor g .uri n)
      (fun v result => ∃ s u, v = .string s ∧ Uri.parseWith e.readDomain s = .ok u ∧ result = some u) none e
      (claimUri g n e) ∧
    Settles (·.isFor g .integer n) (fun v result => ∃ k, v = .integer k ∧ 0 < k ∧ result = some k) none e
      (claimPositive g n e) ∧
    Settles (·.isFor g .enumeration n) (fun v result => ∃ k, v = .integer k ∧ result = some k) none e
      (claimEnum g n e) ∧
    (∀ default, Settles (·.isFor g .boolean n) (fun v result => v = .boolean result) default e
      (claimBoolean g n default e)) ∧
    ∀ allowed, Settles (·.isFor g .keyword n)
      (fun v result => ∃ s ∈ allowed, v = .string s ∧ result = some s) none e
      (claimKeyword g n allowed e) := by
  refine ⟨?_, claimUri_settles g n e, ?_, ?_, fun default => ?_, fun allowed => ?_⟩
  · refine (claimValue_settles g t n e Value.string?).congr fun v result => ?_
    simp only [Value.string?_eq_some]
  · refine (claimValue_settles g .integer n e positive?).congr fun v result => ?_
    simp only [positive?_eq_some, and_assoc]
  · refine (claimValue_settles g .enumeration n e Value.integer?).congr fun v result => ?_
    simp only [Value.integer?_eq_some]
  · have hclaim := (claimValue_settles g .boolean n e Value.boolean?).map (·.getD default)
    refine hclaim.congr fun v result => ?_
    simp only [Value.boolean?_eq_some]
    constructor
    · rintro ⟨found, ⟨b, rfl, rfl⟩, rfl⟩
      rfl
    · rintro rfl
      exact ⟨some result, ⟨result, rfl, rfl⟩, rfl⟩
  · refine (claimValue_settles g .keyword n e (allowed? allowed)).congr fun v result => ?_
    simp only [allowed?_eq_some, and_assoc, and_left_comm]

/-- How many copies a job is to have. -/
def copies (n : Int32) : Attribute :=
  { name := "copies", group := .job, tag := .integer, values := [.integer n] }

/-- An exchange whose request says it twice. -/
def copying : Exchange :=
  { opened {} { rest := [] } {} none with request := [copies 2, copies 3] }

-- The first number is handed out, and only that one leaves the request.
theorem claimPositive_copying :
    claimPositive .job "copies" copying = (some 2, { copying with request := [copies 3] }) := by
  have hfind : copying.request.find? (·.isFor .job .integer "copies") = some (copies 2) := by decide
  obtain ⟨-, -, hsettles, -⟩ := typed_claims_settle .job .integer "copies" copying
  generalize claimPositive .job "copies" copying = outcome at hsettles
  cases hsettles with
  | absent hnone => exact absurd (hnone (copies 2) List.mem_cons_self) (by decide)
  | @accepted before after a v result hfirst hsingle hmeans =>
    obtain ⟨k, rfl, -, rfl⟩ := hmeans
    have ha := find?_eq_some_iff_firstOf.mpr ⟨before, after, hfirst⟩
    cases ha.symm.trans hfind
    cases hsingle
    rw [← hfirst.eraseP_eq]
    rfl
  | @refused before after a reported hfirst hunusable =>
    have ha := find?_eq_some_iff_firstOf.mpr ⟨before, after, hfirst⟩
    cases ha.symm.trans hfind
    exact absurd ⟨2, rfl, by decide, rfl⟩ (hunusable (.integer 2) rfl (some 2))

end Exchange
end Ipp
