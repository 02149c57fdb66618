/-!
Sorting by an order. Items neither of which comes before the other stay in the order in which they are
given.
-/

namespace Cookbook

variable {α : Type}

/-- Puts an item before the first one that it may come before. -/
def insertBy (before : α → α → Bool) (item : α) : List α → List α
  | [] => [item]
  | first :: rest =>
      if before item first then item :: first :: rest else first :: insertBy before item rest

def sortBy (before : α → α → Bool) (items : List α) : List α := items.foldr (insertBy before) []

theorem insertBy_perm (before : α → α → Bool) (item : α) (items : List α) :
    (insertBy before item items).Perm (item :: items) := by
  induction items with
  | nil => exact .refl _
  | cons first rest ih =>
      rw [insertBy]
      split
      · exact .refl _
      · exact (ih.cons first).trans (.swap item first rest)

theorem sortBy_perm (before : α → α → Bool) (items : List α) :
    (sortBy before items).Perm items := by
  induction items with
  | nil => exact .refl _
  | cons item items ih => exact (insertBy_perm before item _).trans (ih.cons item)

section Order

variable {before : α → α → Bool} {item : α} {items : List α}

theorem insertBy_pairwise (total : ∀ a b, before a b ∨ before b a)
    (trans : ∀ a b c, before a b → before b c → before a c)
    (sorted : items.Pairwise fun a b => before a b) :
    (insertBy before item items).Pairwise fun a b => before a b := by
  induction items with
  | nil => exact List.pairwise_singleton _ item
  | cons first rest ih =>
      obtain ⟨least, others⟩ := List.pairwise_cons.mp sorted
      rw [insertBy]
      split
      · next smaller =>
          refine List.pairwise_cons.mpr ⟨List.forall_mem_cons.mpr ⟨smaller, ?_⟩, sorted⟩
          exact fun other member => trans _ _ _ smaller (least other member)
      · next larger =>
          refine List.pairwise_cons.mpr ⟨fun other member => ?_, ih others⟩
          obtain rfl | member := List.mem_cons.mp ((insertBy_perm before item rest).mem_iff.mp member)
          · exact (total _ _).resolve_left larger
          · exact least other member

theorem sortBy_pairwise (total : ∀ a b, before a b ∨ before b a)
    (trans : ∀ a b c, before a b → before b c → before a c) (items : List α) :
    (sortBy before items).Pairwise fun a b => before a b := by
  induction items with
  | nil => exact .nil
  | cons item items ih => exact insertBy_pairwise total trans ih

end Order

end Cookbook
