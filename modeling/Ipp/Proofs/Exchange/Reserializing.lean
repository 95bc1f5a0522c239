import Ipp.Exchange.Echo
import Ipp.Proofs.Reply.Echo
import Ipp.Proofs.Reply.Sending
import Ipp.Proofs.Request.Acceptance

/-!
# Sending a request back

A request whose groups stand in the order of a reply, and whose attributes come back as they were
received, is sent back byte for byte behind the version and the status: its groups of one kind are one
list of the queue, with a marker between any two.
-/

namespace Ipp

open Calls

/-! ## Groups of one kind -/

namespace Queue

/-- Queues entries of one group. -/
def appendAll (q : Queue) (g : Group) (entries : List Entry) : Queue :=
  entries.foldl (·.append g) q

theorem appendAll_append (q : Queue) (g : Group) (entries more : List Entry) :
    q.appendAll g (entries ++ more) = (q.appendAll g entries).appendAll g more :=
  List.foldl_append

theorem list_appendAll (q : Queue) (g h : Group) (entries : List Entry) :
    (q.appendAll g entries).list h = q.list h ++ if g = h then entries else [] := by
  induction entries generalizing q with
  | nil => rw [ite_self, List.append_nil]; rfl
  | cons entry entries ih =>
    refine (ih (q.append g entry)).trans ?_
    rw [list_append, List.append_assoc]
    split <;> rfl

end Queue

/-- Several objects can be described in the group. -/
def Group.DescribesObjects (g : Group) : Prop :=
  g = .printer ∨ g = .job

theorem Queue.insertEnd_eq {g : Group} (h : g.DescribesObjects) (q : Queue) :
    q.insertEnd g = .ok (q.append g .endOfObject) := by
  rcases h with rfl | rfl <;> rfl

namespace GroupForm

/-- The attributes of the group as they are read behind the delimiter of this ordinal. -/
def numbered (n : Nat) (g : GroupForm) : List Attribute :=
  g.attributes.map (·.toAttribute g.group n)

/-- The attributes of groups whose delimiters are counted from `n`. -/
def numberedFrom : Nat → List GroupForm → List Attribute
  | _, [] => []
  | n, g :: gs => g.numbered n ++ numberedFrom (n + 1) gs

/-- The entries that the attributes of the group are copied into. -/
def entries (g : GroupForm) : List Entry :=
  (g.numbered 0).map .attribute

/-- The entries of further groups of the same kind, each behind a marker. -/
def furtherEntries (gs : List GroupForm) : List Entry :=
  gs.flatMap fun g => .endOfObject :: g.entries

/-- The entries of groups of one kind. -/
def entriesOfRun : List GroupForm → List Entry
  | [] => []
  | g :: gs => g.entries ++ furtherEntries gs

theorem numberedFrom_append (n : Nat) (gs hs : List GroupForm) :
    numberedFrom n (gs ++ hs) = numberedFrom n gs ++ numberedFrom (n + gs.length) hs := by
  induction gs generalizing n with
  | nil => rfl
  | cons g gs ih =>
    rw [List.cons_append, numberedFrom, ih, numberedFrom, List.append_assoc, List.length_cons,
      Nat.add_assoc, Nat.add_comm 1]

theorem numberedFrom_eq (n : Nat) (gs : List GroupForm) :
    numberedFrom n gs = (gs.zipIdx n).flatMap fun (g, block) =>
      g.attributes.map (·.toAttribute g.group block) := by
  induction gs generalizing n with
  | nil => rfl
  | cons g gs ih => rw [numberedFrom, ih, List.zipIdx_cons, List.flatMap_cons]; rfl

/-! ### Their bytes -/

/-- The group has attributes, and all of them come back as they were received. -/
structure IsPlain (g : GroupForm) : Prop where
  filled : g.attributes ≠ []
  wellFormed : g.WellFormed
  plain : ∀ f ∈ g.attributes, f.IsPlain

end GroupForm

theorem AttributeForm.IsPlain.encode {f : AttributeForm} (h : f.IsPlain) (hf : f.WellFormed)
    (root : String) (g : Group) (block : Nat) :
    (f.toAttribute g block).encode root = .ofBytes f.bytes := by
  have hyields := hf.encode_yields root g block
  have hfits : ¬f.Outgrows root := by
    rw [Outgrows, h.echoed]
    rintro (hname | ⟨w, hw, hlong⟩)
    · exact absurd (hf.items _ List.mem_cons_self).name (Nat.not_le.mpr hname)
    · rcases List.mem_cons.mp hw with rfl | hw
      · exact absurd (hf.items _ List.mem_cons_self).value (Nat.not_le.mpr hlong)
      · have hitem : AttributeForm.nameless w ∈ f.items :=
          List.mem_cons_of_mem _ (List.mem_map_of_mem hw)
        exact absurd (hf.items _ hitem).value (Nat.not_le.mpr hlong)
  rw [hyields.whole hfits, h.echoed]

theorem Encoding.concat_ofBytes {α : Type} (bytes : α → List UInt8) (as : List α) :
    concat (as.map fun a => .ofBytes (bytes a)) = .ofBytes (as.flatMap bytes) := by
  induction as with
  | nil => rfl
  | cons a as ih => rw [List.map_cons, concat, ih, List.flatMap_cons]; rfl

section Encoding

variable {root : String} {k : Group} {gs : List GroupForm}

theorem encodeEntries_entries {g : GroupForm} (hg : g.IsPlain) {rest : List Entry}
    {bytes : List UInt8} (hrest : encodeEntries root k rest = .ofBytes bytes) :
    encodeEntries root k (g.entries ++ rest) =
      .ofBytes (g.attributes.flatMap AttributeForm.bytes ++ bytes) := by
  have hwell := hg.wellFormed
  have hplain := hg.plain
  unfold GroupForm.entries GroupForm.numbered
  rw [List.map_map]
  unfold GroupForm.WellFormed at hwell
  generalize g.attributes = fs at hwell hplain
  induction fs with
  | nil => exact hrest
  | cons f fs ih =>
    have hfs := ih (fun f' hf' => hwell f' (List.mem_cons_of_mem f hf'))
      fun f' hf' => hplain f' (List.mem_cons_of_mem f hf')
    have hf := (hplain f List.mem_cons_self).encode (hwell f List.mem_cons_self) root g.group 0
    rw [List.map_cons, List.cons_append, Function.comp_apply, encodeEntries, hfs, hf,
      List.flatMap_cons, List.append_assoc]
    rfl

theorem encodeEntries_furtherEntries (hgs : ∀ g ∈ gs, g.IsPlain ∧ g.group = k) :
    encodeEntries root k (GroupForm.furtherEntries gs) = .ofBytes (gs.flatMap GroupForm.bytes) := by
  induction gs with
  | nil => rfl
  | cons g gs ih =>
    obtain ⟨hg, hk⟩ := hgs g List.mem_cons_self
    have hrest := ih fun g' hg' => hgs g' (List.mem_cons_of_mem g hg')
    have hentries := encodeEntries_entries hg hrest
    have hfilled : (g.entries ++ GroupForm.furtherEntries gs).isEmpty = false := by
      obtain ⟨f, fs, hfs⟩ := List.exists_cons_of_ne_nil hg.filled
      rw [GroupForm.entries, GroupForm.numbered, hfs]
      rfl
    show encodeEntries root k (.endOfObject :: (g.entries ++ GroupForm.furtherEntries gs)) = _
    rw [encodeEntries, hfilled, hentries, List.flatMap_cons, GroupForm.bytes, hk]
    rfl

-- The first delimiter is that of the group in the reply, the others are markers.
theorem encodeGroup_entriesOfRun (hgs : ∀ g ∈ gs, g.IsPlain ∧ g.group = k) :
    encodeGroup root k (GroupForm.entriesOfRun gs) = .ofBytes (gs.flatMap GroupForm.bytes) := by
  cases gs with
  | nil => rfl
  | cons g gs =>
    obtain ⟨hg, hk⟩ := hgs g List.mem_cons_self
    have hrest : encodeEntries root k (GroupForm.furtherEntries gs) = _ :=
      encodeEntries_furtherEntries fun g' hg' => hgs g' (List.mem_cons_of_mem g hg')
    have hfilled : (GroupForm.entriesOfRun (g :: gs)).isEmpty = false := by
      obtain ⟨f, fs, hfs⟩ := List.exists_cons_of_ne_nil hg.filled
      rw [GroupForm.entriesOfRun, GroupForm.entries, GroupForm.numbered, hfs]
      rfl
    rw [encodeGroup, hfilled, GroupForm.entriesOfRun, encodeEntries_entries hg hrest,
      List.flatMap_cons, GroupForm.bytes, hk]
    rfl

/-- A reply whose lists hold groups of a request is written as these groups are. -/
theorem encodeReply_runs {h : Header} {status : Status} {q : Queue} {runs : Group → List GroupForm}
    (hruns : ∀ k, ∀ g ∈ runs k, g.IsPlain ∧ g.group = k)
    (hq : ∀ k, q.list k = GroupForm.entriesOfRun (runs k)) :
    encodeReply root h status q = .ofBytes (encodeReplyHeader h status ++
      ((replyOrder.flatMap runs).flatMap GroupForm.bytes ++ [endOfAttributes])) := by
  have hgroups : replyOrder.map (fun k => encodeGroup root k (q.list k)) =
      replyOrder.map fun k => .ofBytes ((runs k).flatMap GroupForm.bytes) :=
    List.map_congr_left fun k _ => by rw [hq, encodeGroup_entriesOfRun (hruns k)]
  rw [encodeReply, hgroups, Encoding.concat_ofBytes, List.flatMap_assoc, ← List.append_assoc]
  rfl

end Encoding

/-! ## The echo -/

namespace Exchange

variable {e : Exchange} {rest : List Attribute}

theorem queueing_of_ok {change : Queue → Except Fault Queue} {q : Queue}
    (h : change e.queue = .ok q) : queueing change e = .ok () { e with queue := q } := by
  rw [queueing, h]

-- The first attribute of the request is the one that is found for its own key.
theorem claim_head {a : Attribute} (hrequest : e.request = a :: rest) :
    (modifyGet (claim a.group a.tag a.name) : Action (Option Attribute)) e =
      .ok (some a) { e with request := rest } := by
  have hself : a.isFor a.group a.tag a.name = true := by simp [Attribute.isFor]
  have hclaim : claim a.group a.tag a.name e = (some a, { e with request := rest }) := by
    rw [claim, hrequest, takeFirst, if_pos hself]
  exact congrArg (fun claimed => EStateM.Result.ok claimed.1 claimed.2) hclaim

/-- Behind `before` the attributes `as` in front of the request are queued as `entries` of the group `k`, and
`after` is the last of them. -/
def Echoes (k : Group) (before : Option Attribute) (as : List Attribute) (entries : List Entry)
    (after : Option Attribute) : Prop :=
  ∀ (e : Exchange) (rest : List Attribute), e.request = as ++ rest →
    echoBehind before (as ++ rest) e =
      echoBehind after rest { e with request := rest, queue := e.queue.appendAll k entries }

variable {k : Group} {n : Nat} {before : Option Attribute}

theorem echoes_nil (k : Group) (before : Option Attribute) : Echoes k before [] [] before := by
  intro e rest hrequest
  rw [List.nil_append] at hrequest ⊢
  rw [← hrequest]
  rfl

theorem Echoes.append {mid after : Option Attribute} {as bs : List Attribute}
    {entries more : List Entry} (h : Echoes k before as entries mid) (h' : Echoes k mid bs more after) :
    Echoes k before (as ++ bs) (entries ++ more) after := by
  intro e rest hrequest
  rw [List.append_assoc] at hrequest ⊢
  rw [h e (bs ++ rest) hrequest, h' _ rest rfl, Queue.appendAll_append]

-- An attribute that starts another object stands behind a marker.
theorem echoes_one {a : Attribute} (front : List Entry)
    (hfront : front = if startsObject before a then [.endOfObject] else [])
    (hmark : front ≠ [] → a.group.DescribesObjects) (hvalues : a.values.isEmpty = false) :
    Echoes a.group before [a] (front ++ [.attribute { a with block := 0 }]) (some a) := by
  intro e rest hrequest
  have hcopy : ∀ q : Queue, Queue.addCopy a.group a q = .ok (q.insert { a with block := 0 }) :=
    fun q => if_neg (by rw [hvalues]; decide)
  have hbehind : ∀ q : Queue, (do
      queueing (Queue.addCopy a.group a)
      let _ ← modifyGet (claim a.group a.tag a.name)
      echoBehind (some a) rest) { e with queue := q } =
        echoBehind (some a) rest { e with request := rest, queue := q.insert { a with block := 0 } } := by
    intro q
    rw [bind_of_ok (queueing_of_ok (e := { e with queue := q }) (hcopy q))]
    exact bind_of_ok (claim_head (e := { e with queue := q.insert { a with block := 0 } }) hrequest) _
  show echoBehind before (a :: rest) e = _
  rw [echoBehind]
  by_cases hs : startsObject before a = true
  · rw [if_pos hs] at hfront ⊢
    have hobjects := hmark (by rw [hfront]; exact List.cons_ne_nil _ _)
    rw [hfront]
    refine (bind_of_ok (queueing_of_ok (Queue.insertEnd_eq hobjects e.queue)) _).trans ?_
    exact hbehind (e.queue.append a.group .endOfObject)
  · rw [if_neg hs] at hfront ⊢
    rw [hfront]
    exact hbehind e.queue

-- Behind an attribute of the same group no other object starts.
theorem echoes_numbered (fs : List AttributeForm) {b : Attribute} (hgroup : b.group = k)
    (hblock : b.block = n) :
    ∃ b', b'.group = k ∧ b'.block = n ∧ Echoes k (some b) (fs.map (·.toAttribute k n))
      (fs.map fun f => .attribute (f.toAttribute k 0)) (some b') := by
  induction fs generalizing b with
  | nil => exact ⟨b, hgroup, hblock, echoes_nil k (some b)⟩
  | cons f fs ih =>
    obtain ⟨b', hgroup', hblock', hrest⟩ := ih (b := f.toAttribute k n) rfl rfl
    have hsame : startsObject (some b) (f.toAttribute k n) = false := by
      simp [startsObject, AttributeForm.toAttribute, hblock]
    have hfirst : Echoes k (some b) [f.toAttribute k n] [.attribute (f.toAttribute k 0)]
        (some (f.toAttribute k n)) :=
      echoes_one [] (by rw [hsame]; rfl) (absurd rfl) rfl
    exact ⟨b', hgroup', hblock', hfirst.append hrest⟩

/-- A group that is not empty stands behind a marker where it starts another object. -/
theorem echoes_group {g : GroupForm} (hg : g.attributes ≠ []) (front : List Entry)
    (hfront : ∀ f : AttributeForm,
      front = if startsObject before (f.toAttribute g.group n) then [.endOfObject] else [])
    (hmark : front ≠ [] → g.group.DescribesObjects) :
    ∃ b, b.group = g.group ∧ b.block = n ∧
      Echoes g.group before (g.numbered n) (front ++ g.entries) (some b) := by
  obtain ⟨f, fs, hfs⟩ := List.exists_cons_of_ne_nil hg
  obtain ⟨b, hgroup, hblock, hrest⟩ := echoes_numbered fs (b := f.toAttribute g.group n) rfl rfl
  have hfirst := echoes_one front (hfront f) hmark rfl
  have hentries : front ++ g.entries = (front ++ [.attribute (f.toAttribute g.group 0)]) ++
      fs.map fun f => .attribute (f.toAttribute g.group 0) := by
    rw [GroupForm.entries, GroupForm.numbered, hfs, List.append_assoc, List.map_map]
    rfl
  refine ⟨b, hgroup, hblock, ?_⟩
  rw [hentries, GroupForm.numbered, hfs]
  exact hfirst.append hrest

-- Behind a group of the same kind each one starts another object.
theorem echoes_further {gs : List GroupForm} (hgs : ∀ g ∈ gs, g.IsPlain ∧ g.group = k)
    (hk : gs ≠ [] → k.DescribesObjects) {b : Attribute} (hgroup : b.group = k) (hblock : b.block < n) :
    ∃ b', b'.group = k ∧ Echoes k (some b) (GroupForm.numberedFrom n gs)
      (GroupForm.furtherEntries gs) (some b') := by
  induction gs generalizing n b with
  | nil => exact ⟨b, hgroup, echoes_nil k (some b)⟩
  | cons g gs ih =>
    obtain ⟨hg, hkind⟩ := hgs g List.mem_cons_self
    have hobjects := hk (List.cons_ne_nil g gs)
    have hdiffers : b.block ≠ n := Nat.ne_of_lt hblock
    have hstarts : ∀ f : AttributeForm,
        startsObject (some b) (f.toAttribute g.group n) = true := by
      intro f
      simp [startsObject, AttributeForm.toAttribute, hgroup, hkind, hdiffers]
    obtain ⟨b', hgroup', hblock', hfirst⟩ := echoes_group hg.filled [.endOfObject]
      (fun f => (if_pos (hstarts f)).symm) (fun _ => by rw [hkind]; exact hobjects)
    rw [hkind] at hgroup' hfirst
    obtain ⟨b'', hgroup'', hrest⟩ := ih (n := n + 1) (b := b')
      (fun g' hg' => hgs g' (List.mem_cons_of_mem g hg')) (fun _ => hobjects) hgroup'
      (by rw [hblock']; exact Nat.lt_succ_self n)
    exact ⟨b'', hgroup'', hfirst.append hrest⟩

/-- Groups of one kind, behind an attribute of another, are queued with a marker between any two. -/
theorem echoes_run {gs : List GroupForm} (hgs : ∀ g ∈ gs, g.IsPlain ∧ g.group = k)
    (hk : gs.length ≤ 1 ∨ k.DescribesObjects) (n : Nat) (hbefore : ∀ b ∈ before, b.group ≠ k) :
    ∃ after, (∀ b ∈ after, b.group = k ∨ b ∈ before) ∧
      Echoes k before (GroupForm.numberedFrom n gs) (GroupForm.entriesOfRun gs) after := by
  cases gs with
  | nil => exact ⟨before, fun b hb => .inr hb, echoes_nil k before⟩
  | cons g gs =>
    obtain ⟨hg, hkind⟩ := hgs g List.mem_cons_self
    have hcontinues : ∀ f : AttributeForm, startsObject before (f.toAttribute g.group n) = false := by
      intro f
      cases before with
      | none => rfl
      | some b =>
        have hother : b.group ≠ k := hbefore b rfl
        simp [startsObject, AttributeForm.toAttribute, hkind, hother]
    obtain ⟨b, hgroup, hblock, hfirst⟩ := echoes_group hg.filled []
      (fun f => by rw [hcontinues f]; rfl) (absurd rfl)
    rw [hkind] at hgroup hfirst
    have hfurther : gs ≠ [] → k.DescribesObjects := by
      intro hne
      refine hk.resolve_left fun hshort => hne ?_
      exact List.length_eq_zero_iff.mp (Nat.le_zero.mp (Nat.le_of_succ_le_succ hshort))
    obtain ⟨b', hgroup', hrest⟩ := echoes_further (n := n + 1)
      (fun g' hg' => hgs g' (List.mem_cons_of_mem g hg')) hfurther hgroup
      (by rw [hblock]; exact Nat.lt_succ_self n)
    refine ⟨some b', fun b'' hb'' => ?_, hfirst.append hrest⟩
    cases hb''
    exact .inl hgroup'

/-- Groups that stand kind by kind are queued in one list for each kind. -/
theorem echoBehind_runs {runs : Group → List GroupForm}
    (hruns : ∀ k, ∀ g ∈ runs k, g.IsPlain ∧ g.group = k)
    (hobjects : ∀ k, (runs k).length ≤ 1 ∨ k.DescribesObjects) {kinds : List Group}
    (hkinds : kinds.Nodup) (n : Nat) (hbefore : ∀ b ∈ before, b.group ∉ kinds)
    (hrequest : e.request = GroupForm.numberedFrom n (kinds.flatMap runs)) :
    ∃ q : Queue, (∀ k, q.list k =
        e.queue.list k ++ if k ∈ kinds then GroupForm.entriesOfRun (runs k) else []) ∧
      echoBehind before (GroupForm.numberedFrom n (kinds.flatMap runs)) e =
        .ok () { e with request := [], queue := q } := by
  induction kinds generalizing n before e with
  | nil =>
    refine ⟨e.queue, fun k => by rw [if_neg List.not_mem_nil, List.append_nil], ?_⟩
    have hnil : e.request = [] := hrequest
    rw [← hnil]
    rfl
  | cons kind kinds ih =>
    obtain ⟨hnew, hnodup⟩ := List.nodup_cons.mp hkinds
    rw [List.flatMap_cons, GroupForm.numberedFrom_append] at hrequest ⊢
    obtain ⟨after, hafter, hrun⟩ := echoes_run (hruns kind) (hobjects kind) n
      fun b hb hkind => hbefore b hb (hkind ▸ List.mem_cons_self)
    have hothers : ∀ b ∈ after, b.group ∉ kinds := by
      intro b hb
      rcases hafter b hb with hkind | hb
      · rw [hkind]
        exact hnew
      · exact fun hmem => hbefore b hb (List.mem_cons_of_mem kind hmem)
    obtain ⟨q, hq, hrest⟩ := ih (e := { e with
      request := GroupForm.numberedFrom (n + (runs kind).length) (kinds.flatMap runs)
      queue := e.queue.appendAll kind (GroupForm.entriesOfRun (runs kind)) }) hnodup _ hothers rfl
    refine ⟨q, fun k => ?_, (hrun e _ hrequest).trans hrest⟩
    rw [hq, Queue.list_appendAll]
    by_cases hk : kind = k
    · rw [if_pos hk, ← hk, if_neg hnew, if_pos List.mem_cons_self, List.append_nil]
    · have hmem : k ∈ kind :: kinds ↔ k ∈ kinds := by simp [Ne.symm hk]
      simp only [if_neg hk, List.append_nil, hmem]

end Exchange

/-! ## Whole requests -/

namespace RequestForm

/-- The groups of one kind, in order. -/
def groupsOf (f : RequestForm) (k : Group) : List GroupForm :=
  f.groups.filter (·.group = k)

/-- The groups stand in the order of a reply, with one of operation attributes and at most one of
unsupported ones, and none of them is empty. -/
structure InReplyOrder (f : RequestForm) : Prop where
  order : f.groups = replyOrder.flatMap f.groupsOf
  operation : (f.groupsOf .operation).length = 1
  unsupported : (f.groupsOf .unsupported).length ≤ 1
  filled : ∀ g ∈ f.groups, g.attributes ≠ []

theorem mem_groupsOf {f : RequestForm} {k : Group} {g : GroupForm} :
    g ∈ f.groupsOf k ↔ g ∈ f.groups ∧ g.group = k := by
  rw [groupsOf, List.mem_filter, decide_eq_true_iff]

theorem InReplyOrder.length_groupsOf {f : RequestForm} (h : f.InReplyOrder) (k : Group) :
    (f.groupsOf k).length ≤ 1 ∨ k.DescribesObjects := by
  cases k with
  | operation => exact .inl (Nat.le_of_eq h.operation)
  | printer => exact .inr (.inl rfl)
  | job => exact .inr (.inr rfl)
  | unsupported => exact .inl h.unsupported

-- Behind the version and the status, or the operation, a reply is written as a request.
theorem drop_bytes {f : RequestForm} (hf : f.groups = replyOrder.flatMap f.groupsOf)
    (status : Status) :
    (encodeReplyHeader f.header status ++
      ((replyOrder.flatMap f.groupsOf).flatMap GroupForm.bytes ++ [endOfAttributes])).drop 4 =
        f.bytes.drop 4 := by
  rw [← hf]
  rfl

end RequestForm

namespace Exchange

-- The whole request is queued, each group where it belongs, and nothing else is.
theorem echo_runs {e : Exchange} {f : RequestForm} (hf : f.WellFormed) (horder : f.InReplyOrder)
    (hplain : ∀ g ∈ f.groups, ∀ a ∈ g.attributes, a.IsPlain) (hrequest : e.request = f.attributes)
    (hqueue : e.queue = {}) :
    ∃ q : Queue, echo e = .ok f.attributes.length { e with request := [], queue := q } ∧
      (∀ k, q.list k = GroupForm.entriesOfRun (f.groupsOf k)) ∧
      ∀ k, ∀ g ∈ f.groupsOf k, g.IsPlain ∧ g.group = k := by
  have hruns : ∀ k, ∀ g ∈ f.groupsOf k, g.IsPlain ∧ g.group = k := by
    intro k g hg
    obtain ⟨hmem, hk⟩ := RequestForm.mem_groupsOf.mp hg
    exact ⟨⟨horder.filled g hmem, hf g hmem, hplain g hmem⟩, hk⟩
  have hnumbered : e.request = GroupForm.numberedFrom 1 (replyOrder.flatMap f.groupsOf) := by
    rw [hrequest, ← horder.order, GroupForm.numberedFrom_eq]
    rfl
  have hbefore : ∀ b ∈ (none : Option Attribute), b.group ∉ replyOrder := nofun
  obtain ⟨q, hq, hecho⟩ := echoBehind_runs hruns horder.length_groupsOf (by decide) 1 hbefore hnumbered
  refine ⟨q, ?_, fun k => ?_, hruns⟩
  · rw [← hnumbered] at hecho
    rw [← hrequest, echo, get_bind]
    exact bind_of_ok hecho _
  · rw [hq, hqueue]
    cases k <;> rfl

/-- A request in the order of a reply, whose attributes come back as they were received, is echoed byte for
byte from the request id up to the end tag, whatever its values. -/
theorem echo_reserializes (config : Config) (source : Source) {sink : Sink} (hsink : sink.Steady)
    (declared : Option Nat) {e : Exchange}
    (hparse : parse (opened config source sink declared) = .ok () e) {f : RequestForm}
    (hf : f.WellFormed) {document : List UInt8} (hd : source.rest = f.bytes ++ document)
    (horder : f.InReplyOrder) (hplain : ∀ g ∈ f.groups, ∀ a ∈ g.attributes, a.IsPlain) :
    ∃ e' e'' reply, echo e = .ok f.attributes.length e' ∧ e'.request = [] ∧
      sendReply false e' = .ok () e'' ∧ e''.channel.sink.bytes = sink.bytes ++ reply ∧
      reply.drop 4 = f.bytes.drop 4 := by
  obtain ⟨hheader, hrequest⟩ := form_of_parse hparse hf hd
  have hparses := keeps_parse.ok hparse
  have hfresh : e.queue = {} ∧ e.replied = false ∧ e.substitute = none := by
    rw [hparses.rest]
    exact ⟨rfl, rfl, rfl⟩
  have hopen : e.channel.Open :=
    (Channel.open_opened source hsink declared _).of_reads hparses.reads
  obtain ⟨q, hecho, hlists, hruns⟩ := echo_runs hf horder hplain hrequest hfresh.1
  -- Nothing is left to be swept, and the list of operation attributes is not empty.
  have hsweep : ({ e with request := [], queue := q } : Exchange).sweep.queue = q :=
    congrArg queue (sweep_eq _)
  have hoperation : q.operation ≠ [] := by
    obtain ⟨g, hg⟩ := List.length_eq_one_iff.mp horder.operation
    obtain ⟨a, as, has⟩ := List.exists_cons_of_ne_nil
      (hruns .operation g (by rw [hg]; exact List.mem_singleton_self g)).1.filled
    show q.list .operation ≠ []
    rw [hlists, hg, GroupForm.entriesOfRun, GroupForm.entries, GroupForm.numbered, has]
    exact List.cons_ne_nil _ _
  have hencoded : encodeReply e.root e.header e.status q = .ofBytes _ := encodeReply_runs hruns hlists
  rw [← hsweep] at hoperation hencoded
  obtain ⟨e'', hsent, hbytes⟩ := sendReply_of_bytes (e := { e with request := [], queue := q }) hopen
    hfresh.2.1 hfresh.2.2 hoperation hencoded false
  refine ⟨_, e'', _, hecho, rfl, hsent, ?_, RequestForm.drop_bytes horder.order e.status⟩
  rw [hbytes, ← hheader, ← hparses.produced]
  rfl

/-- A request with two printers, a name that comes twice, a value that is no text and one of another tag. -/
def medley : RequestForm :=
  { header := { major := 2, minor := 0, operation := 0x000B, requestId := 7 }
    groups :=
      [⟨.operation, [⟨.keyword, [97], [98], [(.keyword, [0xFF]), (.integer, [0, 1])]⟩,
        ⟨.keyword, [97], [], []⟩, ⟨.uri, [117], [104, 58, 47], []⟩]⟩,
       ⟨.printer, [⟨.boolean, [112], [1], []⟩]⟩, ⟨.printer, [⟨.boolean, [112], [0], []⟩]⟩,
       ⟨.job, [⟨.integer, [106], [0, 0, 1, 0], []⟩]⟩,
       ⟨.unsupported, [⟨.resolution, [114], [1, 2, 3], []⟩]⟩] }

theorem medley_reserializes :
    ∃ e e' e'' reply, parse (opened {} { rest := medley.bytes ++ [8, 9] } {} none) = .ok () e ∧
      echo e = .ok 7 e' ∧ e'.request = [] ∧ sendReply false e' = .ok () e'' ∧
      e''.channel.sink.bytes = reply ∧ reply.drop 4 = medley.bytes.drop 4 := by
  have hsink : ({} : Sink).Steady := by decide
  have hreadable : succeeded (parse (opened {} { rest := medley.bytes ++ [8, 9] } {} none)) = true := by
    decide +kernel
  have hform : medley.WellFormed := by decide
  have horder : medley.InReplyOrder := ⟨rfl, rfl, by decide, by decide⟩
  have hplain : ∀ g ∈ medley.groups, ∀ a ∈ g.attributes, a.IsPlain := by decide +kernel
  obtain ⟨e', e'', reply, hecho, hrest, hsent, hbytes, hreply⟩ :=
    echo_reserializes {} { rest := medley.bytes ++ [8, 9] } hsink none
      (eq_ok_of_succeeded hreadable) hform rfl horder hplain
  exact ⟨_, e', e'', reply, eq_ok_of_succeeded hreadable, hecho, hrest, hsent, hbytes, hreply⟩

end Exchange
end Ipp
