import Ipp.Proofs.Exchange.Reserializing
import Ipp.Proofs.Session.Steps
import Mathlib.Data.List.Forall2

/-!
# Traces of requests

A trace shows a request as it was written: a block for each of its groups in which attributes are left, in
the order of the wire (`Session.trace_regroups`). It finds the blocks as runs of attributes with the same
ordinal. These are the groups because the ordinals ascend along the request, and no call puts an attribute
back or changes the order.
-/

namespace Ipp

open Calls

namespace Trace

/-! ## Runs -/

theorem exists_runs_cons (a : Attribute) (rest : List Attribute) :
    ∃ run more, runs (a :: rest) = (a :: run) :: more := by
  rw [runs]
  split
  · split
    · exact ⟨_, _, rfl⟩
    · exact ⟨_, _, rfl⟩
  · exact ⟨_, _, rfl⟩

/-- Attributes of one block, behind which another begins, are a run of their own. -/
theorem runs_append {n : Nat} {as rest : List Attribute} (hfilled : as ≠ [])
    (hsame : ∀ a ∈ as, a.block = n) (hother : ∀ b ∈ rest, b.block ≠ n) :
    runs (as ++ rest) = as :: runs rest := by
  induction as with
  | nil => exact absurd rfl hfilled
  | cons a as ih =>
    have ha : a.block = n := hsame a List.mem_cons_self
    cases as with
    | nil =>
      cases rest with
      | nil => rfl
      | cons b rest =>
        obtain ⟨run, more, hruns⟩ := exists_runs_cons b rest
        have hne : a.block ≠ b.block := fun h => hother b List.mem_cons_self (h.symm.trans ha)
        rw [List.singleton_append, runs, hruns]
        exact if_neg hne
    | cons b as =>
      have hb : b.block = n := hsame b (List.mem_cons_of_mem a List.mem_cons_self)
      have hbehind := ih (List.cons_ne_nil b as) fun c hc => hsame c (List.mem_cons_of_mem a hc)
      rw [List.cons_append, runs, hbehind]
      exact if_pos (ha.trans hb.symm)

/-! ## Blocks -/

/-- What is left of one group of a request. -/
structure Block where
  group : Group
  attributes : List Attribute

namespace Block

def isFilled (b : Block) : Bool :=
  !b.attributes.isEmpty

/-- What a trace shows of it. -/
def toJson (b : Block) : Json :=
  .object [("attributes", .list (b.attributes.map Attribute.toJson)), ("group", .text b.group.word)]

/-- The block has the group of the form, and holds some of the attributes that are read from it behind the
delimiter of this ordinal, in their order. -/
structure LeftOf (b : Block) (place : GroupForm × Nat) : Prop where
  group : b.group = place.1.group
  attributes : b.attributes.Sublist (place.1.numbered place.2)

theorem LeftOf.placed {b : Block} {place : GroupForm × Nat} (h : b.LeftOf place) {a : Attribute}
    (ha : a ∈ b.attributes) : a.group = b.group ∧ a.block = place.2 := by
  obtain ⟨form, -, rfl⟩ := List.mem_map.mp (h.attributes.subset ha)
  exact ⟨h.group.symm, rfl⟩

-- Such a block is shown under the group of its first attribute.
theorem LeftOf.block_eq {b : Block} {place : GroupForm × Nat} (h : b.LeftOf place)
    (hfilled : b.isFilled = true) : Trace.block b.attributes = b.toJson := by
  rw [toJson]
  cases hattributes : b.attributes with
  | nil =>
    rw [isFilled, hattributes] at hfilled
    cases hfilled
  | cons a rest =>
    have hmem : a ∈ b.attributes := by
      rw [hattributes]
      exact List.mem_cons_self
    rw [Trace.block, (h.placed hmem).1]

end Block

/-- The blocks are what is left of the groups, one for each, whose delimiters are counted from `n`. -/
abbrev LeftFrom (n : Nat) (blocks : List Block) (gs : List GroupForm) : Prop :=
  List.Forall₂ Block.LeftOf blocks (gs.zipIdx n)

variable {n : Nat} {blocks : List Block} {gs : List GroupForm}

theorem exists_leftFrom {as : List Attribute} (h : as.Sublist (GroupForm.numberedFrom n gs)) :
    ∃ blocks, LeftFrom n blocks gs ∧ blocks.flatMap Block.attributes = as := by
  induction gs generalizing n as with
  | nil => exact ⟨[], .nil, (List.sublist_nil.mp h).symm⟩
  | cons g gs ih =>
    obtain ⟨here, later, rfl, hhere, hlater⟩ := List.sublist_append_iff.mp h
    obtain ⟨blocks, hblocks, rfl⟩ := ih hlater
    exact ⟨⟨g.group, here⟩ :: blocks, .cons ⟨rfl, hhere⟩ hblocks, rfl⟩

theorem LeftFrom.exists_place (h : LeftFrom n blocks gs) {b : Block} (hb : b ∈ blocks) :
    ∃ place ∈ gs.zipIdx n, b.LeftOf place := by
  obtain ⟨i, hi, rfl⟩ := List.getElem_of_mem hb
  obtain ⟨hlength, hget⟩ := List.forall₂_iff_get.mp h
  have hi' : i < (gs.zipIdx n).length := hlength ▸ hi
  exact ⟨_, List.getElem_mem hi', hget i hi hi'⟩

theorem LeftFrom.group_eq (h : LeftFrom n blocks gs) {b : Block} (hb : b ∈ blocks) {a : Attribute}
    (ha : a ∈ b.attributes) : a.group = b.group := by
  obtain ⟨place, -, hleft⟩ := h.exists_place hb
  exact (hleft.placed ha).1

-- Ordinals ascend along the blocks.
theorem LeftFrom.le_block (h : LeftFrom n blocks gs) {a : Attribute}
    (ha : a ∈ blocks.flatMap Block.attributes) : n ≤ a.block := by
  obtain ⟨b, hb, ha⟩ := List.mem_flatMap.mp ha
  obtain ⟨⟨g, m⟩, hplace, hleft⟩ := h.exists_place hb
  rw [(hleft.placed ha).2]
  exact List.le_snd_of_mem_zipIdx hplace

/-- The runs are the blocks in which attributes are left. -/
theorem LeftFrom.runs_eq (h : LeftFrom n blocks gs) :
    runs (blocks.flatMap Block.attributes) = (blocks.filter Block.isFilled).map Block.attributes := by
  induction gs generalizing n blocks with
  | nil =>
    cases h
    rfl
  | cons g gs ih =>
    cases h with
    | @cons b _ blocks _ hb hblocks =>
      rw [List.flatMap_cons]
      by_cases hfilled : b.attributes = []
      · have hempty : b.isFilled = false := by rw [Block.isFilled, hfilled]; rfl
        rw [hfilled, List.nil_append, List.filter_cons_of_neg (by rw [hempty]; decide), ih hblocks]
      · have hkept : b.isFilled = true := by simpa [Block.isFilled] using hfilled
        have hsame : ∀ a ∈ b.attributes, a.block = n := fun a ha => (hb.placed ha).2
        have hother : ∀ a ∈ blocks.flatMap Block.attributes, a.block ≠ n := fun a ha =>
          Nat.ne_of_gt (LeftFrom.le_block hblocks ha)
        rw [runs_append hfilled hsame hother, List.filter_cons_of_pos hkept, List.map_cons, ih hblocks]

theorem LeftFrom.render_eq (h : LeftFrom n blocks gs) :
    render (blocks.flatMap Block.attributes) =
      .list ((blocks.filter Block.isFilled).map Block.toJson) := by
  rw [render, h.runs_eq, List.map_map]
  congr 1
  apply List.map_congr_left
  intro b hb
  obtain ⟨hmem, hfilled⟩ := List.mem_filter.mp hb
  obtain ⟨place, -, hleft⟩ := h.exists_place hmem
  exact hleft.block_eq hfilled

end Trace

/-! ## Sessions -/

namespace Session

-- The reply takes attributes out of the request as well.
theorem sublist_sendReply (header : Bool) (e : Exchange) :
    (final (e.sendReply header)).request.Sublist e.request := by
  by_cases hreplied : e.replied = true
  · rw [Exchange.final_sendReply_of_replied hreplied]
  · obtain ⟨e', x, hsifts, -, heq⟩ :=
      Exchange.final_sendReply (Bool.eq_false_iff.mpr hreplied) header
    rw [heq]
    exact hsifts.request

theorem sublist_play {calls : List Call} (hcalls : ∀ call ∈ calls, call.parses = false) (s : Session) :
    (s.play calls).2.exchange.request.Sublist s.exchange.request := by
  refine play_keeps (P := fun e => e.request.Sublist s.exchange.request)
    (fun call hcall e e' hmoves hsub => ?_) (.refl _)
  cases hmoves with
  | parses hparses _ =>
    rw [hcalls call hcall] at hparses
    cases hparses
  | works hworks => exact hworks.request.trans hsub
  | replies header heq =>
    rw [heq]
    exact (sublist_sendReply header e).trans hsub

/-- Behind any calls that do not parse again, the trace of a request shows a block for each group on the wire
in which attributes are left, and in the order of the wire: under its group, which is that of all its
attributes, and with these in the order of the request. No attribute is left out or shown twice, and groups
of the same kind stay apart. -/
theorem trace_regroups (config : Config) (source : Source) (sink : Sink) (declared : Option Nat)
    {e : Exchange} (hparse : Exchange.parse (.opened config source sink declared) = .ok () e)
    {calls : List Call} (hcalls : ∀ call ∈ calls, call.parses = false) {s : Session}
    (hs : s = (play calls { exchange := e }).2) :
    ∃ (f : RequestForm) (document : List UInt8) (blocks : List Trace.Block),
      f.WellFormed ∧ source.rest = f.bytes ++ document ∧
      List.Forall₂ Trace.Block.LeftOf blocks (f.groups.zipIdx 1) ∧
      blocks.flatMap Trace.Block.attributes = s.exchange.request ∧
      (∀ b ∈ blocks, ∀ a ∈ b.attributes, a.group = b.group) ∧
      Trace.render s.exchange.request =
        .list ((blocks.filter Trace.Block.isFilled).map Trace.Block.toJson) := by
  obtain ⟨f, document, hf, hrest, -, hrequest⟩ := Exchange.exists_form_of_parse hparse
  have hsub : s.exchange.request.Sublist (GroupForm.numberedFrom 1 f.groups) := by
    rw [hs, GroupForm.numberedFrom_eq, ← RequestForm.attributes, ← hrequest]
    exact sublist_play hcalls _
  obtain ⟨blocks, hleft, hjoined⟩ := Trace.exists_leftFrom hsub
  refine ⟨f, document, blocks, hf, hrest, hleft, hjoined, fun b hb a ha => ?_, ?_⟩
  · exact Trace.LeftFrom.group_eq hleft hb ha
  · rw [← hjoined]
    exact Trace.LeftFrom.render_eq hleft

end Session

/-- A request with two groups for jobs next to each other, one without attributes, and one for a printer. -/
def batch : RequestForm :=
  { header := { major := 1, minor := 1 }
    groups :=
      [⟨.operation, [⟨.keyword, [97], [120], []⟩, ⟨.integer, [98], [0, 0, 0, 1], []⟩]⟩,
       ⟨.job, [⟨.keyword, [99], [], []⟩]⟩, ⟨.job, [⟨.keyword, [99], [121], []⟩]⟩, ⟨.job, []⟩,
       ⟨.printer, [⟨.keyword, [100], [], []⟩]⟩] }

def batchStart : Exchange :=
  final (Exchange.parse (.opened {} { rest := batch.bytes } {} none))

def batchCalls : List Call :=
  [.claim .operation .keyword "a", .claimString .printer .keyword "d"]

def batchEnd : Session :=
  (Session.play batchCalls { exchange := batchStart }).2

-- The printer is no longer shown, and the two jobs are not joined.
theorem batch_trace :
    (∃ (f : RequestForm) (document : List UInt8) (blocks : List Trace.Block),
      f.WellFormed ∧ batch.bytes = f.bytes ++ document ∧
      List.Forall₂ Trace.Block.LeftOf blocks (f.groups.zipIdx 1) ∧
      blocks.flatMap Trace.Block.attributes = batchEnd.exchange.request ∧
      Trace.render batchEnd.exchange.request =
        .list ((blocks.filter Trace.Block.isFilled).map Trace.Block.toJson)) ∧
    (Trace.runs batchEnd.exchange.request).map (·.map fun a => (a.group, a.name)) =
      [[(.operation, "b")], [(.job, "c")], [(.job, "c")]] := by
  have hreadable : succeeded (Exchange.parse (.opened {} { rest := batch.bytes } {} none)) = true := by
    decide +kernel
  have hread : Exchange.parse (.opened {} { rest := batch.bytes } {} none) = .ok () batchStart :=
    eq_ok_of_succeeded hreadable
  have hcalls : ∀ call ∈ batchCalls, call.parses = false := by decide
  have hend : batchEnd = (Session.play batchCalls { exchange := batchStart }).2 := rfl
  obtain ⟨f, document, blocks, hf, hrest, hleft, hjoined, -, hrender⟩ :=
    Session.trace_regroups {} { rest := batch.bytes } {} none hread hcalls hend
  exact ⟨⟨f, document, blocks, hf, hrest, hleft, hjoined, hrender⟩, by decide +kernel⟩

end Ipp
