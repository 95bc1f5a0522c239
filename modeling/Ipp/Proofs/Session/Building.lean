import Ipp.Proofs.Session.Queueing

/-!
# The lists of the reply

Whatever is called, each list of the reply only grows, and holds what belongs into it. A call that builds
queues the one entry that its arguments describe where they fit together, and does nothing otherwise.
-/

namespace Ipp

open Calls

/-! ## The shape of the lists -/

/-- The entry can stand in the list of `g`: an attribute in that of its own group, a marker where several
objects are described. -/
def Entry.BelongsTo (g : Group) : Entry → Prop
  | .attribute a => a.group = g
  | .endOfObject => g = .job ∨ g = .printer

namespace Queue

def InShape (q : Queue) : Prop :=
  ∀ g, ∀ entry ∈ q.list g, entry.BelongsTo g

/-- From `q` to `q'` entries were appended to the lists, each where it belongs. -/
def Lengthens (q q' : Queue) : Prop :=
  ∀ g, ∃ more, q'.list g = q.list g ++ more ∧ ∀ entry ∈ more, entry.BelongsTo g

variable {q q' q'' : Queue}

theorem inShape_empty : ({} : Queue).InShape := by
  intro g entry hentry
  cases g <;> cases hentry

theorem Lengthens.refl (q : Queue) : q.Lengthens q :=
  fun _ => ⟨[], (List.append_nil _).symm, nofun⟩

theorem Lengthens.trans (h : q.Lengthens q') (h' : q'.Lengthens q'') : q.Lengthens q'' := by
  intro g
  obtain ⟨more, hlist, hmore⟩ := h g
  obtain ⟨more', hlist', hmore'⟩ := h' g
  refine ⟨more ++ more', by rw [hlist', hlist, List.append_assoc], fun entry hentry => ?_⟩
  rcases List.mem_append.mp hentry with hentry | hentry
  · exact hmore entry hentry
  · exact hmore' entry hentry

theorem Lengthens.list_le (h : q.Lengthens q') (g : Group) : q.list g <+: q'.list g := by
  obtain ⟨more, hlist, -⟩ := h g
  exact ⟨more, hlist.symm⟩

theorem InShape.lengthens (hq : q.InShape) (h : q.Lengthens q') : q'.InShape := by
  intro g entry hentry
  obtain ⟨more, hlist, hmore⟩ := h g
  rw [hlist] at hentry
  rcases List.mem_append.mp hentry with hentry | hentry
  · exact hq g entry hentry
  · exact hmore entry hentry

theorem lengthens_append (q : Queue) {g : Group} {entry : Entry} (h : entry.BelongsTo g) :
    q.Lengthens (q.append g entry) := by
  intro g'
  rw [list_append]
  by_cases hg : g = g'
  · rw [if_pos hg]
    refine ⟨[entry], rfl, fun other hother => ?_⟩
    rw [List.mem_singleton.mp hother, ← hg]
    exact h
  · rw [if_neg hg]
    exact ⟨[], rfl, nofun⟩

theorem lengthens_insert (q : Queue) (a : Attribute) : q.Lengthens (q.insert a) :=
  q.lengthens_append rfl

theorem lengthens_refuse (q : Queue) (refused : List Attribute) : q.Lengthens (q.refuse refused) := by
  induction refused generalizing q with
  | nil => exact .refl q
  | cons a refused ih => exact (q.lengthens_insert a.unsupported).trans (ih _)

end Queue

/-! ## Orders -/

/-- What a building call asks for: one entry at the end of one list, if its arguments allow that. -/
structure Order where
  group : Group
  entry : Entry
  Allowed : Prop
  belongs : Allowed → entry.BelongsTo group

namespace Order

/-- An attribute with values of the family `want`. -/
def typed (want : Family) (g : Group) (tag : ValueTag) (name : String) (values : List Value) : Order where
  group := g
  entry := .attribute { name, group := g, tag, values }
  Allowed := tag.family = want ∧ values ≠ []
  belongs := fun _ => rfl

/-- An attribute with a tag that stands in place of a value. -/
def outOfBand (g : Group) (tag : ValueTag) (name : String) : Order where
  group := g
  entry := .attribute { name, group := g, tag, values := [.bytes []] }
  Allowed := 0x10 ≤ tag.byte ∧ tag.byte ≤ 0x1F
  belongs := fun _ => rfl

/-- An attribute whose texts are made from a pattern. -/
def template (g : Group) (tag : ValueTag) (name pattern : String) (args : List Value) : Order where
  group := g
  entry := .attribute { name, group := g, tag, values := args, template := some pattern }
  Allowed := tag.family = .string ∧ args ≠ [] ∧
    ∀ arg ∈ args, (∃ n, arg = .integer n) ∨ ∃ s, arg = .string s
  belongs := fun _ => rfl

/-- An attribute with the name, the tag, the values and the template of `a`. -/
def copy (g : Group) (a : Attribute) : Order where
  group := g
  entry := .attribute { a with group := g, block := 0 }
  Allowed := a.values ≠ []
  belongs := fun _ => rfl

def marker (g : Group) : Order where
  group := g
  entry := .endOfObject
  Allowed := g = .job ∨ g = .printer
  belongs := id

/-- The change queues the entry of the order where that is allowed, and fails where it is not. -/
structure Fills (order : Order) (change : Queue → Except Fault Queue) : Prop where
  queues : order.Allowed → ∀ q, change q = .ok (q.append order.group order.entry)
  refuses : ¬order.Allowed → ∀ q, ∃ fault, change q = .error fault

variable {g : Group} {tag : ValueTag} {name : String}

theorem fills_add (builder : String) (want : Family) (values : List Value) :
    (typed want g tag name values).Fills (Queue.add builder want g tag name values) where
  queues := by
    rintro ⟨hfamily, hsome⟩ q
    rw [Queue.add, if_neg (not_not_intro hfamily), if_neg (mt List.isEmpty_iff.mp hsome)]
    rfl
  refuses := by
    intro hnot q
    unfold Queue.add
    split
    · exact ⟨_, rfl⟩
    next hfamily =>
    split
    · exact ⟨_, rfl⟩
    next hsome =>
    exact absurd ⟨Decidable.of_not_not hfamily, mt List.isEmpty_iff.mpr hsome⟩ hnot

theorem fills_addOutOfBand : (outOfBand g tag name).Fills (Queue.addOutOfBand g tag name) := by
  have hrange : tag.isOutOfBand = true ↔ 0x10 ≤ tag.byte ∧ tag.byte ≤ 0x1F := by
    simp [ValueTag.isOutOfBand]
  refine ⟨fun hallowed q => ?_, fun hnot q => ?_⟩
  · rw [Queue.addOutOfBand, if_pos (hrange.mpr hallowed)]
    rfl
  · rw [Queue.addOutOfBand, if_neg (mt hrange.mp hnot)]
    exact ⟨_, rfl⟩

theorem isTemplateArgument_iff (v : Value) :
    Queue.isTemplateArgument v = true ↔ (∃ n, v = .integer n) ∨ ∃ s, v = .string s := by
  cases v <;> simp [Queue.isTemplateArgument]

theorem fills_addTemplates (pattern : String) (args : List Value) :
    (template g tag name pattern args).Fills (Queue.addTemplates g tag name pattern args) where
  queues := by
    rintro ⟨hfamily, hsome, hargs⟩ q
    have hnone : args.find? (!Queue.isTemplateArgument ·) = none := by
      rw [List.find?_eq_none]
      intro arg harg hbad
      rw [(isTemplateArgument_iff arg).mpr (hargs arg harg)] at hbad
      cases hbad
    rw [Queue.addTemplates, if_neg (not_not_intro hfamily), if_neg (mt List.isEmpty_iff.mp hsome), hnone]
    rfl
  refuses := by
    intro hnot q
    unfold Queue.addTemplates
    split
    · exact ⟨_, rfl⟩
    next hfamily =>
    split
    · exact ⟨_, rfl⟩
    next hsome =>
    split
    · exact ⟨_, rfl⟩
    next hnone =>
    refine absurd ⟨Decidable.of_not_not hfamily, mt List.isEmpty_iff.mpr hsome, fun arg harg => ?_⟩ hnot
    rw [← isTemplateArgument_iff]
    have hgood := List.find?_eq_none.mp hnone arg harg
    rwa [Bool.not_eq_true', Bool.not_eq_false] at hgood

theorem fills_addCopy (a : Attribute) : (copy g a).Fills (Queue.addCopy g a) := by
  refine ⟨fun hsome q => ?_, fun hnot q => ?_⟩
  · rw [Queue.addCopy, if_neg (mt List.isEmpty_iff.mp hsome)]
    rfl
  · rw [Queue.addCopy, if_pos (List.isEmpty_iff.mpr (Decidable.of_not_not hnot))]
    exact ⟨_, rfl⟩

theorem fills_insertEnd : (marker g).Fills (·.insertEnd g) := by
  cases g with
  | job => exact ⟨fun _ _ => rfl, fun hnot => absurd (.inl rfl) hnot⟩
  | printer => exact ⟨fun _ _ => rfl, fun hnot => absurd (.inr rfl) hnot⟩
  | operation | unsupported => exact ⟨nofun, fun _ _ => ⟨_, rfl⟩⟩

end Order

namespace Session

/-- What the call asks for, if it is one that builds. -/
def order? (s : Session) : Call → Option Order
  | .addInteger g tag name n => some (.typed .integer g tag name [.integer n])
  | .addIntegers g tag name ns => some (.typed .integer g tag name (ns.map .integer))
  | .addString g tag name text => some (.typed .string g tag name [.string text])
  | .addStrings g tag name texts => some (.typed .string g tag name (texts.map .string))
  | .addBoolean g tag name b => some (.typed .boolean g tag name [.boolean b])
  | .addOutOfBand g tag name => some (.outOfBand g tag name)
  | .addTemplate g tag name pattern arg => some (.template g tag name pattern [arg])
  | .addTemplates g tag name pattern args => some (.template g tag name pattern args)
  | .addCopy g handle => (s.attribute? handle).map (.copy g)
  | .addEnd g => some (.marker g)
  | _ => none

/-- The call does as `order` says: where it is allowed its entry comes last in its list, and where it is
not the call fails; nothing else is changed. -/
structure Follows (s : Session) (call : Call) (order : Order) : Prop where
  allowed : order.Allowed → (s.step call).1.answer = .ok .done ∧
    ∃ queue, (s.step call).2 = { s with exchange := { s.exchange with queue } } ∧
      ∀ g, queue.list g = s.exchange.queue.list g ++ if g = order.group then [order.entry] else []
  refused : ¬order.Allowed → ∃ fault, (s.step call).1.answer = .error fault ∧ (s.step call).2 = s

variable {s : Session} {call : Call} {order : Order}

-- A call that builds changes the queue as its order asks.
theorem perform_of_order (h : s.order? call = some order) :
    ∃ change, order.Fills change ∧ perform call s = build change s := by
  cases call with
  | addInteger g tag name n => cases h; exact ⟨_, Order.fills_add _ _ _, rfl⟩
  | addIntegers g tag name ns => cases h; exact ⟨_, Order.fills_add _ _ _, rfl⟩
  | addString g tag name text => cases h; exact ⟨_, Order.fills_add _ _ _, rfl⟩
  | addStrings g tag name texts => cases h; exact ⟨_, Order.fills_add _ _ _, rfl⟩
  | addBoolean g tag name b => cases h; exact ⟨_, Order.fills_add _ _ _, rfl⟩
  | addOutOfBand g tag name => cases h; exact ⟨_, Order.fills_addOutOfBand, rfl⟩
  | addTemplate g tag name pattern arg => cases h; exact ⟨_, Order.fills_addTemplates _ _, rfl⟩
  | addTemplates g tag name pattern args => cases h; exact ⟨_, Order.fills_addTemplates _ _, rfl⟩
  | addCopy g handle =>
    obtain ⟨a, ha, rfl⟩ := Option.map_eq_some_iff.mp h
    refine ⟨_, Order.fills_addCopy a, ?_⟩
    rw [perform, get_bind, ha]
  | addEnd g => cases h; exact ⟨_, Order.fills_insertEnd, rfl⟩
  | _ => cases h

theorem build_of_ok {change : Queue → Except Fault Queue} {queue : Queue}
    (h : change s.exchange.queue = .ok queue) :
    build change s = .ok .done { s with exchange := { s.exchange with queue } } := by
  rw [build, answer_onExchange _ fun _ => .done, Exchange.queueing, h]

theorem build_of_error {change : Queue → Except Fault Queue} {fault : Fault}
    (h : change s.exchange.queue = .error fault) : build change s = .error fault s := by
  rw [build, answer_onExchange _ fun _ => .done, Exchange.queueing, h]

theorem follows_of_order (h : s.order? call = some order) : s.Follows call order := by
  obtain ⟨change, hfills, hperform⟩ := perform_of_order h
  refine ⟨fun hallowed => ?_, fun hnot => ?_⟩
  · have hbuild := build_of_ok (hfills.queues hallowed s.exchange.queue)
    rw [step, hperform, hbuild]
    refine ⟨rfl, _, rfl, fun g => ?_⟩
    rw [Queue.list_append]
    simp only [eq_comm]
  · obtain ⟨fault, hfault⟩ := hfills.refuses hnot s.exchange.queue
    rw [step, hperform, build_of_error hfault]
    exact ⟨fault, rfl, rfl⟩

end Session

/-! ## Every call -/

/-- From `e` to `e'` the lists of the reply only grow, by entries that belong into them. -/
def Exchange.Lengthens (e e' : Exchange) : Prop :=
  e.queue.Lengthens e'.queue

namespace Exchange

theorem Lengthens.refl (e : Exchange) : e.Lengthens e :=
  Queue.Lengthens.refl e.queue

theorem Lengthens.trans {e e' e'' : Exchange} (h : e.Lengthens e') (h' : e'.Lengthens e'') :
    e.Lengthens e'' :=
  Queue.Lengthens.trans h h'

theorem Sifts.lengthens {e e' : Exchange} (h : e.Sifts e') : e.Lengthens e' := by
  obtain ⟨refused, -, hqueue⟩ := h.queue
  rw [Lengthens, hqueue]
  exact e.queue.lengthens_refuse refused

-- What is read does not touch the reply.
theorem Parses.lengthens {e e' : Exchange} (h : e.Parses e') : e.Lengthens e' := by
  rw [h.rest]
  exact .refl e

theorem keepsLengthens_queueing {order : Order} {change : Queue → Except Fault Queue}
    (h : order.Fills change) : Keeps Lengthens (queueing change) := by
  intro e
  unfold queueing
  by_cases hallowed : order.Allowed
  · rw [h.queues hallowed]
    exact e.queue.lengthens_append (order.belongs hallowed)
  · obtain ⟨fault, hfault⟩ := h.refuses hallowed e.queue
    rw [hfault]
    exact .refl e

theorem keepsLengthens_echo : Keeps Lengthens echo :=
  keeps_get_bind fun _ =>
    (keeps_echoBehind Lengthens.refl Lengthens.trans
      (fun _ => keepsLengthens_queueing Order.fills_insertEnd)
      (fun g t n e => (claim_takes g t n e).2.sifts.lengthens)
      (fun a _ => keepsLengthens_queueing (Order.fills_addCopy a)) none).bind Lengthens.trans
        fun _ => keeps_pure Lengthens.refl _

theorem lengthens_forwardRequest (sink : Sink) (e : Exchange) :
    e.Lengthens (e.forwardRequest sink).exchange := by
  unfold forwardRequest onChannel
  cases Channel.rewind e.channel <;> exact .refl e

theorem lengthens_sendReply (header : Bool) (e : Exchange) :
    e.Lengthens (final (sendReply header e)) := by
  by_cases hreplied : e.replied = true
  · rw [final_sendReply_of_replied hreplied]
    exact .refl e
  · obtain ⟨e', x, hsifts, -, heq⟩ := final_sendReply (Bool.eq_false_iff.mpr hreplied) header
    rw [heq]
    exact hsifts.lengthens

end Exchange

namespace Session

/-- Whether it fails or not, a call takes nothing from the lists, and appends only what belongs into them. -/
theorem lengthens_perform (call : Call) (s : Session) :
    s.exchange.Lengthens (final (perform call s)).exchange := by
  have hkept : ∀ {α : Type} {x : Exchange.Action α} (answer : α → Answer), Keeps Exchange.Lengthens x →
      s.exchange.Lengthens (final ((do return answer (← onExchange x) : Action Answer) s)).exchange := by
    intro α x answer hx
    rw [exchange_final_onExchange x answer]
    exact hx s.exchange
  by_cases hclaims : call.claims = true
  · exact (sifts_perform hclaims s).lengthens
  cases hbuilds : s.order? call with
  | some order =>
    obtain ⟨change, hfills, hperform⟩ := perform_of_order hbuilds
    rw [hperform]
    exact hkept (fun _ => .done) (Exchange.keepsLengthens_queueing hfills)
  | none =>
  cases call with
  | parse => exact hkept (fun _ => .done) fun e => (Exchange.keeps_parse e).lengthens
  | parseHeader => exact hkept (fun _ => .done) fun e => (Exchange.keeps_parseHeader e).lengthens
  | parseBody => exact hkept (fun _ => .done) fun e => (Exchange.keeps_parseBody e).lengthens
  | demote handle =>
    rw [perform, get_bind]
    cases s.attribute? handle with
    | none => exact .refl s.exchange
    | some a => exact s.exchange.queue.lengthens_insert a.unsupported
  | addCopy g handle =>
    -- Without an attribute there is nothing to copy.
    have hnone : s.attribute? handle = none := Option.map_eq_none_iff.mp hbuilds
    rw [perform, get_bind, hnone]
    exact .refl s.exchange
  | echo => exact hkept .count Exchange.keepsLengthens_echo
  | addStandard => exact (s.exchange.queue.lengthens_insert _).trans (Queue.lengthens_insert _ _)
  | sendReply header => exact hkept (fun _ => .done) (Exchange.lengthens_sendReply header)
  | forwardRequest sink => exact Exchange.lengthens_forwardRequest sink s.exchange
  | readDocument | setStatus | rejectOperation | setRemoteUser | setRemoteAddr | setPathInfo
  | replyFromFile => exact .refl s.exchange
  | addInteger | addIntegers | addString | addStrings | addBoolean | addOutOfBand | addTemplate
  | addTemplates | addEnd => cases hbuilds
  | header | request | queue | trace | info | find | claim | claimSingle | claimString | claimUri
  | claimPositive | claimEnum | claimBoolean | claimKeyword | claimIdentity | classify | isRequested
  | release => exact absurd rfl hclaims

theorem lengthens_step (call : Call) (s : Session) :
    s.exchange.queue.Lengthens (s.step call).2.exchange.queue := by
  rw [step_eq]
  exact lengthens_perform call s

theorem inShape_play (calls : List Call) {s : Session} (h : s.exchange.queue.InShape) :
    (s.play calls).2.exchange.queue.InShape :=
  play_induction (P := fun e => e.queue.InShape)
    (fun call _ t ht => ht.lengthens (lengthens_perform call t)) h

/-- After any calls, whether they fail or not, the lists of the reply hold only what belongs into them; and
whatever is called next, each of them only grows. A call that builds answers to its order. -/
theorem lists_keep_shape (config : Config) (source : Source) (sink : Sink) (declared : Option Nat)
    (calls : List Call) :
    let s := (play calls { exchange := .opened config source sink declared }).2
    s.exchange.queue.InShape ∧
      ∀ call, (∀ g, s.exchange.queue.list g <+: (s.step call).2.exchange.queue.list g) ∧
        ∀ order, s.order? call = some order → s.Follows call order :=
  ⟨inShape_play calls Queue.inShape_empty,
    fun call => ⟨(lengthens_step call _).list_le, fun _ => follows_of_order⟩⟩

end Session
end Ipp
