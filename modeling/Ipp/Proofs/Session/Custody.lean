import Ipp.Proofs.Session.Ledger

/-!
# Where the attributes of a request are

While a request is worked off each of its attributes is in one place: still in the request, in the hands of
the caller, or among those that were refused. A ledger follows the last two along the calls, and a reply
sends back all that was refused and all of the operation and job groups that is left.
-/

namespace Ipp

open Calls

/-- The session and its ledger are reached from the exchange `e` by calls that the ledger allows. -/
inductive Custody (e : Exchange) : Session → Ledger → Prop
  | start : Custody e { exchange := e } {}
  | step {s : Session} {l : Ledger} {call : Call} (before : Custody e s l) (allowed : l.Allows call) :
    Custody e (s.step call).2 (l.after call s)

theorem Custody.play {e : Exchange} {calls : List Call} {s : Session} {l : Ledger} (h : Custody e s l)
    (hall : l.AllowsAll calls s) : Custody e (s.play calls).2 (l.afterAll calls s) := by
  induction calls generalizing s l with
  | nil => exact h
  | cons call calls ih => exact ih (h.step hall.1) hall.2

/-! ## Where everything is -/

theorem perm_cons_eraseP {α : Type} {p : α → Bool} {as : List α} {a : α}
    (h : as.find? p = some a) : as.Perm (a :: as.eraseP p) := by
  induction as with
  | nil => cases h
  | cons b as ih =>
    rw [List.find?_cons] at h
    rw [List.eraseP_cons]
    cases hb : p b with
    | true =>
      rw [hb] at h
      cases h
      exact .refl _
    | false =>
      rw [hb] at h
      exact ((ih h).cons b).trans (.swap a b _)

/-- Every attribute of `e` is in one place, and the order of the request is kept. -/
structure Accounts (e : Exchange) (s : Session) (l : Ledger) : Prop where
  order : s.exchange.request.Sublist e.request
  places : (s.exchange.request ++ (l.handed s.held ++ l.refused)).Perm e.request
  unsupported : s.exchange.queue.attributes .unsupported = l.refused.map Attribute.unsupported
  kept : ∀ position ∈ l.kept, position < s.held.length

namespace Ledger

variable {l : Ledger} {held : List Attribute}

theorem filterMap_append_held (more : List Attribute) {kept : List Nat}
    (h : ∀ position ∈ kept, position < held.length) :
    kept.filterMap ((held ++ more)[·]?) = kept.filterMap (held[·]?) := by
  induction kept with
  | nil => rfl
  | cons position kept ih =>
    have hp : (held ++ more)[position]? = held[position]? :=
      List.getElem?_append_left (h position List.mem_cons_self)
    rw [List.filterMap_cons, List.filterMap_cons, hp,
      ih fun p hp => h p (List.mem_cons_of_mem position hp)]

theorem handed_keep (hkept : ∀ position ∈ l.kept, position < held.length) (a : Attribute) :
    ({ l with kept := l.kept ++ [held.length] } : Ledger).handed (held ++ [a]) =
      l.kept.filterMap (held[·]?) ++ [a] ++ l.used := by
  have hlast : [held.length].filterMap ((held ++ [a])[·]?) = [a] := by
    rw [List.filterMap_cons_some List.getElem?_concat_length]
    rfl
  rw [handed, List.filterMap_append, filterMap_append_held [a] hkept, hlast]

-- What a claim accepts is in the hands of the caller afterwards, and nothing else is new there.
theorem handed_take (hkept : ∀ position ∈ l.kept, position < held.length) (hands : Bool) (c : Claim)
    (a : Attribute) {held' : List Attribute}
    (hheld : held' = held ++ if hands then ((some a).filter c.accepts).toList else []) :
    ((l.take hands held.length c a).handed held').Perm
      (l.handed held ++ ((some a).filter c.accepts).toList) := by
  unfold take
  by_cases hc : c.accepts a = true
  · rw [Option.filter_some_pos hc, Option.toList_some] at hheld ⊢
    rw [if_pos hc]
    cases hands with
    | true =>
      rw [hheld, if_pos rfl, if_pos rfl, handed_keep hkept, handed, List.append_assoc, List.append_assoc]
      exact List.perm_append_comm.append_left _
    | false =>
      rw [hheld, if_neg Bool.false_ne_true, if_neg Bool.false_ne_true, List.append_nil, handed, handed,
        List.append_assoc]
  · have hnone : held' = held := by
      rw [hheld, Option.filter_some_neg (eq_false_of_ne_true hc)]
      cases hands <;> exact List.append_nil held
    rw [if_neg hc, hnone, Option.filter_some_neg (eq_false_of_ne_true hc), Option.toList_none,
      List.append_nil]
    exact .refl _

theorem refused_take (hands : Bool) (position : Nat) (c : Claim) (a : Attribute) :
    (l.take hands position c a).refused = l.refused ++ Exchange.refusedOf c.accepts (some a) := by
  unfold take Exchange.refusedOf
  by_cases hc : c.accepts a = true
  · rw [if_pos hc, Option.filter_some_neg (by rw [hc]; rfl), Option.toList_none, List.append_nil]
    cases hands <;> rfl
  · rw [if_neg hc, Option.filter_some_pos (by rw [eq_false_of_ne_true hc]; rfl), Option.toList_some]

-- What a claim finds is in the hands of the caller afterwards, or among the refused.
theorem take_perm (hkept : ∀ position ∈ l.kept, position < held.length) (hands : Bool) (c : Claim)
    (a : Attribute) {held' : List Attribute}
    (hheld : held' = held ++ if hands then ((some a).filter c.accepts).toList else []) :
    ((l.take hands held.length c a).handed held' ++ (l.take hands held.length c a).refused).Perm
      (a :: (l.handed held ++ l.refused)) := by
  have hhanded := handed_take hkept hands c a hheld
  have hone : (((some a).filter c.accepts).toList ++ Exchange.refusedOf c.accepts (some a)) = [a] := by
    unfold Exchange.refusedOf
    rw [Option.filter_some, Option.filter_some]
    cases c.accepts a <;> rfl
  -- The attribute comes last in one of two lists; counting spares moving it there step by step.
  rw [List.perm_iff_count]
  intro b
  have hb := hhanded.count_eq b
  have hab := congrArg (List.count b) hone
  rw [refused_take]
  simp only [List.count_append, List.count_cons, List.count_nil] at hb hab ⊢
  omega

theorem kept_take (hkept : ∀ position ∈ l.kept, position < held.length) (hands : Bool) (c : Claim)
    (a : Attribute) {held' : List Attribute}
    (hheld : held' = held ++ if hands then ((some a).filter c.accepts).toList else []) :
    ∀ position ∈ (l.take hands held.length c a).kept, position < held'.length := by
  have hgrown : held.length ≤ held'.length := by
    rw [hheld, List.length_append]
    omega
  have hold : ∀ position ∈ l.kept, position < held'.length :=
    fun position hp => Nat.lt_of_lt_of_le (hkept position hp) hgrown
  unfold take
  by_cases hc : c.accepts a = true
  · rw [if_pos hc]
    cases hands with
    | true =>
      intro position hp
      rcases List.mem_append.mp hp with hp | hp
      · exact hold position hp
      · rw [List.mem_singleton.mp hp, hheld, Option.filter_some_pos hc]
        simp
    | false => exact hold
  · rw [if_neg hc]
    exact hold

-- What the caller demotes is among the refused afterwards.
theorem demote_perm {position : Nat} (hp : position ∈ l.kept) {a : Attribute}
    (ha : held[position]? = some a) :
    (({ l with kept := l.kept.erase position } : Ledger).handed held ++ (l.refused ++ [a])).Perm
      (l.handed held ++ l.refused) := by
  have hkept : (l.kept.filterMap (held[·]?)).Perm
      (a :: (l.kept.erase position).filterMap (held[·]?)) := by
    rw [← List.filterMap_cons_some (f := (held[·]?)) ha]
    exact (List.perm_cons_erase hp).filterMap (held[·]?)
  rw [List.perm_iff_count]
  intro b
  have hb := hkept.count_eq b
  simp only [handed, List.count_append, List.count_cons, List.count_nil] at hb ⊢
  omega

end Ledger

theorem accounts_start {e : Exchange} (hq : e.queue.attributes .unsupported = []) :
    Accounts e { exchange := e } {} where
  order := .refl _
  places := by
    show (e.request ++ []).Perm e.request
    rw [List.append_nil]
  unsupported := hq
  kept := nofun

namespace Accounts

variable {e : Exchange} {s : Session} {l : Ledger} {call : Call}

theorem after_of_claim {c : Claim} (hc : call.claim? s.exchange.readDomain = some c) :
    l.after call s = (c.found s.exchange).elim l (l.take call.hands s.held.length c) := by
  unfold Ledger.after
  simp only [hc]

-- The caller gets in hands what a claim accepts.
theorem handed_claim (h : Accounts e s l) {c : Claim} (hc : call.claim? s.exchange.readDomain = some c) :
    ((l.after call s).handed (s.step call).2.held).Perm
      (l.handed s.held ++ ((c.found s.exchange).filter c.accepts).toList) := by
  obtain ⟨-, hheld⟩ := Session.step_claim (s := s) hc
  rw [after_of_claim hc]
  cases hf : c.found s.exchange with
  | none =>
    rw [Session.held_of_absent hc hf]
    exact .of_eq (List.append_nil _).symm
  | some a =>
    rw [hf] at hheld
    exact Ledger.handed_take h.kept call.hands c a hheld

theorem claim (h : Accounts e s l) {c : Claim} (hc : call.claim? s.exchange.readDomain = some c) :
    Accounts e (s.step call).2 (l.after call s) := by
  obtain ⟨htakes, hheld⟩ := Session.step_claim (s := s) hc
  have hqueue := htakes.queue
  have hrequest := htakes.request
  rw [after_of_claim hc]
  cases hf : c.found s.exchange with
  | none =>
    have hnone : s.exchange.request.find? c.key = none := hf
    have htaken : s.exchange.Takes c.key c.accepts s.exchange := Exchange.takes_none hnone
    have hsame : s.exchange.request.eraseP c.key = s.exchange.request := htaken.request.symm
    rw [hnone] at hqueue
    rw [hsame] at hrequest
    have hheld' := Session.held_of_absent hc hf
    refine ⟨?_, ?_, ?_, ?_⟩
    · rw [hrequest]
      exact h.order
    · rw [hrequest, hheld']
      exact h.places
    · rw [hqueue]
      exact h.unsupported
    · rw [hheld']
      exact h.kept
  | some a =>
    have hsome : s.exchange.request.find? c.key = some a := hf
    rw [hsome] at hqueue
    rw [hf] at hheld
    refine ⟨?_, ?_, ?_, ?_⟩
    · rw [hrequest]
      exact List.eraseP_sublist.trans h.order
    · have htaken := Ledger.take_perm h.kept call.hands c a hheld
      have hfirst := perm_cons_eraseP hsome
      rw [hrequest]
      refine (htaken.append_left _).trans (List.perm_middle.trans ?_)
      exact (hfirst.symm.append_right _).trans h.places
    · rw [hqueue, Queue.attributes_refuse, if_pos rfl, h.unsupported, ← List.map_append]
      show _ = (l.take call.hands s.held.length c a).refused.map Attribute.unsupported
      rw [Ledger.refused_take]
    · exact Ledger.kept_take h.kept call.hands c a hheld

theorem demote (h : Accounts e s l) {position : Nat} (hp : position ∈ l.kept) :
    Accounts e (s.step (.demote (.held position))).2 (l.after (.demote (.held position)) s) := by
  have hlt := h.kept position hp
  have ha : s.held[position]? = some s.held[position] := List.getElem?_eq_getElem hlt
  have hcall : (s.step (.demote (.held position))).2 =
      { s with exchange := s.exchange.demote s.held[position] } := by
    rw [Session.step_eq, Session.perform, get_bind]
    simp only [Session.attribute?, ha]
    rfl
  have hafter : l.after (.demote (.held position)) s =
      { l with kept := l.kept.erase position, refused := l.refused ++ [s.held[position]] } := by
    show (s.held[position]?).elim _ _ = _
    rw [ha]
    rfl
  rw [hcall, hafter]
  refine ⟨h.order, ?_, ?_, fun p hp => h.kept p (List.mem_of_mem_erase hp)⟩
  · exact ((Ledger.demote_perm hp ha).append_left _).trans h.places
  · show (s.exchange.demote s.held[position]).queue.attributes .unsupported = _
    rw [Exchange.demote_eq, Queue.attributes_refuse, if_pos rfl, h.unsupported, ← List.map_append]

theorem spared (h : Accounts e s l) (hs : s.Spares (s.step call).2) (hafter : l.after call s = l) :
    Accounts e (s.step call).2 (l.after call s) := by
  rw [hafter]
  refine ⟨?_, ?_, ?_, ?_⟩
  · rw [hs.request]
    exact h.order
  · rw [hs.request, hs.held]
    exact h.places
  · rw [hs.unsupported]
    exact h.unsupported
  · rw [hs.held]
    exact h.kept

-- Every call that is allowed keeps the account.
theorem step (h : Accounts e s l) (hallowed : l.Allows call) :
    Accounts e (s.step call).2 (l.after call s) := by
  cases hc : call.claim? s.exchange.readDomain with
  | some c => exact h.claim hc
  | none =>
    -- A demotion is the only other call that moves an attribute.
    by_cases hdemote : ∃ handle, call = .demote handle
    · obtain ⟨handle, rfl⟩ := hdemote
      cases handle with
      | held position => exact h.demote hallowed
      | made a => exact hallowed.elim
    · have hne : ∀ handle, call ≠ .demote handle := fun handle hh => hdemote ⟨handle, hh⟩
      apply h.spared (Session.spares_of_allows hallowed hc hne)
      unfold Ledger.after
      split
      · next hc' =>
        rw [hc] at hc'
        cases hc'
      · exact absurd rfl (hne _)
      · rfl

end Accounts

theorem Custody.accounts {e : Exchange} (hq : e.queue.attributes .unsupported = []) {s : Session}
    {l : Ledger} (h : Custody e s l) : Accounts e s l := by
  induction h with
  | start => exact accounts_start hq
  | step _ hallowed ih => exact ih.step hallowed

/-! ## On the wire -/

theorem Ledger.Allows.composes {l : Ledger} {call : Call} (h : l.Allows call) : call.Composes := by
  cases call with
  | demote handle =>
    cases handle with
    | held position => exact trivial
    | made a => exact h.elim
  | addCopy | addInteger | addIntegers | addString | addStrings | addBoolean | addOutOfBand
  | addTemplate | addTemplates => exact h.2
  | _ => exact trivial

theorem Custody.composing {sent : List UInt8} {e : Exchange} (he : e.Composing sent) {s : Session}
    {l : Ledger} (h : Custody e s l) : s.Composing sent := by
  induction h with
  | start => exact ⟨he, nofun⟩
  | step _ hallowed ih =>
    rw [Session.step_eq]
    exact Session.keepsComposing_perform hallowed.composes _ ih

theorem group_of_mem_attributes {q : Queue} (hq : q.Sendable) {g : Group} {a : Attribute}
    (h : a ∈ q.attributes g) : a.group = g := by
  rw [Queue.attributes_eq] at h
  obtain ⟨entry, hentry, ha⟩ := List.mem_filterMap.mp h
  rcases entry with b | _
  · cases ha
    exact (hq g _ hentry).2
  · cases ha

-- The attributes of one group among those of a whole reply.
theorem filter_replyOrder {q : Queue} (hq : q.Sendable) (root : String) (g : Group) :
    (replyOrder.flatMap fun g => (q.attributes g).map (·.settled root)).filter (·.group == g) =
      (q.attributes g).map (·.settled root) := by
  have hfilter : ∀ g', ((q.attributes g').map (·.settled root)).filter (·.group == g) =
      if g' = g then (q.attributes g).map (·.settled root) else [] := by
    intro g'
    by_cases hg : g' = g
    · rw [if_pos hg, ← hg, List.filter_eq_self]
      intro a ha
      obtain ⟨b, hb, rfl⟩ := List.mem_map.mp ha
      have hbg : b.group = g' := group_of_mem_attributes hq hb
      exact beq_iff_eq.mpr hbg
    · rw [if_neg hg, List.filter_eq_nil_iff]
      intro a ha
      obtain ⟨b, hb, rfl⟩ := List.mem_map.mp ha
      have hbg : b.group = g' := group_of_mem_attributes hq hb
      exact fun hbeq => hg (hbg.symm.trans (beq_iff_eq.mp hbeq))
  simp only [replyOrder, List.flatMap_cons, List.flatMap_nil, List.filter_append, hfilter,
    List.filter_nil]
  cases g <;> simp

theorem filter_unplaced (as : List Attribute) (g : Group) :
    (as.filter (·.group == g)).map Attribute.unplaced =
      (as.map Attribute.unplaced).filter (·.group == g) := by
  rw [List.filter_map]
  rfl

theorem group_of_not_swept {a : Attribute} (h : (!Exchange.isSwept a) = true) :
    a.group = .printer ∨ a.group = .unsupported := by
  unfold Exchange.isSwept at h
  cases hg : a.group <;> simp [hg] at h ⊢

/-- Nothing of a request that was read is lost, doubled or answered twice. At every moment its attributes are
those still in the request, which keep their order, those in the hands of the caller, and those refused,
which the unsupported group of the queue holds in order. A claim hands out what a look shows, and of the
claims of every kind the caller has in hands, from what was found, just what it was answered by. A reply that
is sent then carries as unsupported exactly what was refused, and behind that all that was left of the
operation and job groups; the rest stays in the request. -/
theorem Custody.partition (config : Config) (source : Source) (sink : Sink) (declared : Option Nat)
    (readDomain : Uri.DomainReader) {e : Exchange}
    (hparse : Exchange.parse (.opened config source sink declared readDomain) = .ok () e)
    {s : Session} {l : Ledger} (h : Custody e s l) :
    s.exchange.request.Sublist e.request ∧
    (s.exchange.request ++ (l.handed s.held ++ l.refused)).Perm e.request ∧
    s.exchange.queue.attributes .unsupported = l.refused.map Attribute.unsupported ∧
    (∀ g t n, (s.step (.claim g t n)).1.answer = .ok (.attribute (s.exchange.find? g t n)) ∧
      (s.step (.find g t n)).1.answer = .ok (.attribute (s.exchange.find? g t n))) ∧
    (∀ call c, call.claim? s.exchange.readDomain = some c → ∃ taken answer,
      (∀ a, taken = some a → c.found s.exchange = some a) ∧
      (s.step call).1.answer = .ok answer ∧ call.Yields s.exchange taken answer ∧
      ((l.after call s).handed (s.step call).2.held).Perm (l.handed s.held ++ taken.toList)) ∧
    ∀ (header : Bool) (e' : Exchange), s.exchange.substitute = none →
      s.exchange.sendReply header = .ok () e' →
      (∀ a ∈ e'.request, a.group = .printer ∨ a.group = .unsupported) ∧
      e'.request.Sublist s.exchange.request ∧
      (e'.request ++ (l.handed s.held ++
        (l.refused ++ s.exchange.request.filter Exchange.isSwept))).Perm e.request ∧
      ∃ reply : List UInt8,
        e'.channel.sink.bytes = sink.bytes ++ (Exchange.replyPreamble header ++ reply) ∧
        ∀ (config' : Config) (source' : Source) (sink' : Sink) (declared' : Option Nat),
          source'.Steady → source'.rest = reply →
          (∀ n, declared' = some n → source'.rest.length ≤ n) →
          ∃ r, Exchange.parse (.opened config' source' sink' declared') = .ok () r ∧
            (r.request.filter (·.group == .unsupported)).map Attribute.unplaced =
              (l.refused ++ s.exchange.request.filter Exchange.isSwept).map
                (·.unsupported.settled s.exchange.root) := by
  have hread := Exchange.keeps_parse.ok hparse
  have hfresh : (Exchange.opened config source sink declared readDomain).Composing sink.bytes :=
    (Session.composing_opened config source sink declared readDomain).exchange
  have hqueue : e.queue.attributes .unsupported = [] := by
    rw [hread.rest]
    rfl
  have hcomposing := h.composing (hfresh.of_parses hread)
  have haccounts := h.accounts hqueue
  refine ⟨haccounts.order, haccounts.places, haccounts.unsupported, fun g t n => ⟨?_, rfl⟩,
    fun call c hc => ?_, ?_⟩
  · show Except.ok (Answer.attribute (Exchange.claim g t n s.exchange).1) = _
    rw [(Exchange.claim_takes g t n s.exchange).1]
  · obtain ⟨answer, hanswer, hyields⟩ := Session.step_yields hc
    refine ⟨_, answer, fun a ha => ?_, hanswer, hyields, haccounts.handed_claim hc⟩
    exact (Option.filter_eq_some_iff.mp ha).1
  intro header e' hfile hsent
  obtain ⟨hreplied, hfault, c, rfl, hwritten⟩ := Exchange.sendReply_ok hfile hsent
  have hswept := hcomposing.exchange.sweep.queue
  rw [Exchange.sweep_eq] at hswept hfault hwritten ⊢
  refine ⟨fun a ha => group_of_not_swept (List.mem_filter.mp ha).2, List.filter_sublist, ?_, ?_⟩
  · -- The sweep splits what is left of the request in two and moves one half.
    refine List.Perm.trans ?_ haccounts.places
    have hsplit := (List.filter_append_perm Exchange.isSwept s.exchange.request).count_eq
    rw [List.perm_iff_count]
    intro a
    have ha := hsplit a
    simp only [List.count_append] at ha ⊢
    omega
  rw [hcomposing.exchange.unsent hreplied] at hwritten
  refine ⟨_, hwritten, ?_⟩
  intro config' source' sink' declared' hsteady hrest hdeclared
  obtain ⟨r, hr, -, hrequest⟩ := Exchange.parse_encodeReply hswept hfault config' hsteady sink' hrest
    hdeclared
  refine ⟨r, hr, ?_⟩
  rw [filter_unplaced, hrequest, filter_replyOrder hswept, Queue.attributes_refuse, if_pos rfl,
    haccounts.unsupported, ← List.map_append, List.map_map]
  rfl

/-- A request in which a keyword comes twice, and an integer has two values. -/
def errand : RequestForm :=
  { header := { major := 1, minor := 1 }
    groups :=
      [⟨.operation,
        [⟨.keyword, [97], [120], []⟩, ⟨.keyword, [97], [121], []⟩,
         ⟨.integer, [98], [0, 0, 0, 1], [(.integer, [0, 0, 0, 2])]⟩]⟩,
       ⟨.job, [⟨.keyword, [99], [], []⟩]⟩,
       ⟨.printer, [⟨.keyword, [100], [], []⟩]⟩] }

def errandStart : Exchange :=
  final (Exchange.parse (.opened {} { rest := errand.bytes } {} none))

/-- One of the two keywords is claimed and demoted, the value of the other is used, and the integer is
refused. -/
def errandCalls : List Call :=
  [.addStandard, .claim .operation .keyword "a", .claimString .operation .keyword "a",
   .claimPositive .operation "b", .demote (.held 0)]

def errandEnd : Session :=
  (Session.play errandCalls { exchange := errandStart }).2

def errandLedger : Ledger :=
  ({} : Ledger).afterAll errandCalls { exchange := errandStart }

/-- A claim that is still to be made. -/
def errandClaim : Call :=
  .claimString .job .keyword "c"

def errandSent : Exchange :=
  final (errandEnd.exchange.sendReply true)

theorem errand_partition :
    (errandSent.request ++ (errandLedger.handed errandEnd.held ++
      (errandLedger.refused ++ errandEnd.exchange.request.filter Exchange.isSwept))).Perm
        errandStart.request ∧
    errandSent.request.map (·.name) = ["d"] ∧
    (errandLedger.handed errandEnd.held).map (·.values) = [[.string "y"]] ∧
    (∃ a, errandEnd.exchange.find? .job .keyword "c" = some a ∧
      (errandEnd.step errandClaim).1.answer = .ok (.text (some "")) ∧
      ((errandLedger.after errandClaim errandEnd).handed (errandEnd.step errandClaim).2.held).Perm
        (errandLedger.handed errandEnd.held ++ [a])) ∧
    ∃ reply r, errandSent.channel.sink.bytes = Exchange.replyPreamble true ++ reply ∧
      Exchange.parse (.opened {} { rest := reply } {} none) = .ok () r ∧
      (r.request.filter (·.group == .unsupported)).map Attribute.unplaced =
        [{ name := "b", group := .unsupported, tag := .integer, values := [.integer 1, .integer 2] },
         { name := "a", group := .unsupported, tag := .keyword, values := [.string "x"] },
         { name := "c", group := .unsupported, tag := .keyword, values := [.string ""] }] := by
  have hreadable : succeeded (Exchange.parse (.opened {} { rest := errand.bytes } {} none)) = true := by
    decide +kernel
  have hread : Exchange.parse (.opened {} { rest := errand.bytes } {} none) = .ok () errandStart :=
    eq_ok_of_succeeded hreadable
  have hsendable : succeeded (errandEnd.exchange.sendReply true) = true := by decide +kernel
  have hsent : errandEnd.exchange.sendReply true = .ok () errandSent := eq_ok_of_succeeded hsendable
  have hfile : errandEnd.exchange.substitute = none := by decide +kernel
  have hkept : 0 ∈ (({} : Ledger).afterAll (errandCalls.take 4) { exchange := errandStart }).kept := by
    decide +kernel
  have hall : ({} : Ledger).AllowsAll errandCalls { exchange := errandStart } :=
    ⟨trivial, trivial, trivial, trivial, hkept, trivial⟩
  have hcustody : Custody errandStart errandEnd errandLedger := Custody.start.play hall
  have hpartition := Custody.partition {} { rest := errand.bytes } {} none Uri.asciiDomain hread hcustody
  have hreply := hpartition.2.2.2.2.2 true errandSent hfile hsent
  obtain ⟨reply, hbytes, hwire⟩ := hreply.2.2.2
  obtain ⟨taken, answer, hfound, hanswer, ⟨found, hread, rfl⟩, hhanded⟩ :=
    hpartition.2.2.2.2.1 errandClaim _ rfl
  refine ⟨hreply.2.2.1, by decide +kernel, by decide +kernel, ?_, ?_⟩
  · rcases hread with ⟨rfl, rfl⟩ | ⟨a, v, text, rfl, hvalues, rfl, rfl⟩
    · exact absurd hhanded.length_eq (by decide +kernel)
    · have ha : errandEnd.exchange.find? .job .keyword "c" = some a := hfound a rfl
      have hempty : (errandEnd.exchange.find? .job .keyword "c").map (·.values) = some [.string ""] := by
        decide +kernel
      rw [ha, Option.map_some, hvalues] at hempty
      cases hempty
      exact ⟨a, ha, hanswer, hhanded⟩
  obtain ⟨r, hr, hunsupported⟩ := hwire {} { rest := reply } {} none nofun rfl nofun
  exact ⟨reply, r, hbytes, hr, hunsupported.trans (by decide +kernel)⟩

end Ipp
