import Ipp.Reply.Queue

/-!
# What a queue holds

The attributes of each group after attributes were queued or refused.
-/

namespace Ipp

/-- The attribute of an entry that is no marker. -/
def Entry.attribute? : Entry → Option Attribute
  | .attribute a => some a
  | .endOfObject => none

theorem Queue.attributes_eq (q : Queue) (g : Group) :
    q.attributes g = (q.list g).filterMap Entry.attribute? :=
  rfl

/-! ## Refused attributes -/

/-- The attribute as it is queued when it is not accepted. -/
def Attribute.unsupported (a : Attribute) : Attribute :=
  { a with group := .unsupported }

namespace Queue

/-- Queues attributes as unsupported, one after the other. -/
def refuse (q : Queue) (refused : List Attribute) : Queue :=
  refused.foldl (fun q a => q.insert a.unsupported) q

theorem refuse_append (q : Queue) (as bs : List Attribute) :
    q.refuse (as ++ bs) = (q.refuse as).refuse bs :=
  List.foldl_append

theorem attributes_insert (q : Queue) (a : Attribute) (g : Group) :
    (q.insert a).attributes g = q.attributes g ++ if a.group = g then [a] else [] := by
  rw [attributes, insert, list_append, List.filterMap_append]
  by_cases hg : a.group = g
  · rw [if_pos hg, if_pos hg]
    rfl
  · rw [if_neg hg, if_neg hg]
    rfl

-- What is refused comes last in the unsupported group, and nowhere else.
theorem list_refuse (q : Queue) (refused : List Attribute) (g : Group) :
    (q.refuse refused).list g = q.list g ++
      if g = .unsupported then refused.map fun a => .attribute a.unsupported else [] := by
  induction refused generalizing q with
  | nil => rw [List.map_nil, ite_self, List.append_nil]; rfl
  | cons a refused ih =>
    have h := ih (q.insert a.unsupported)
    rw [insert, list_append, List.append_assoc] at h
    refine h.trans ?_
    by_cases hg : g = .unsupported
    · rw [hg]
      rfl
    · have hg' : a.unsupported.group ≠ g := fun h => hg h.symm
      rw [if_neg hg, if_neg hg, if_neg hg']
      rfl

theorem attributes_refuse (q : Queue) (refused : List Attribute) (g : Group) :
    (q.refuse refused).attributes g =
      q.attributes g ++ if g = .unsupported then refused.map Attribute.unsupported else [] := by
  rw [attributes_eq, list_refuse, List.filterMap_append, attributes_eq]
  by_cases hg : g = .unsupported
  · rw [if_pos hg, if_pos hg, List.filterMap_map]
    exact congrArg (_ ++ · refused) List.filterMap_eq_map'
  · rw [if_neg hg, if_neg hg, List.filterMap_nil]

end Queue

end Ipp
