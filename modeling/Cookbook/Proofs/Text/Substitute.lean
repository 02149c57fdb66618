import Cookbook.Text.Substitute

/-!
What substituting brings about and what it cannot. The characters of the new line are those of the old
one and of the value, which is in it wherever the marker was. A stretch of characters none of which is
in the value is in the new line only if it was in the old one.
-/

namespace Cookbook
namespace Text

variable {marker value stretch cs : List Char}

theorem prefix_of_prefix_substituteAfter (foreign : ∀ c ∈ stretch, c ∉ value) (filled : value ≠ [])
    (starts : stretch <+: substituteAfter marker value 0 cs) : stretch <+: cs := by
  induction cs generalizing stretch with
  | nil => exact starts
  | cons c cs ih =>
      cases stretch with
      | nil => exact List.nil_prefix
      | cons first rest =>
          obtain ⟨firstForeign, restForeign⟩ := List.forall_mem_cons.mp foreign
          rw [substituteAfter] at starts
          split at starts
          · obtain ⟨head, tail, rfl⟩ := List.exists_cons_of_ne_nil filled
            rw [List.cons_append, List.cons_prefix_cons] at starts
            exact absurd (starts.1 ▸ List.mem_cons_self) firstForeign
          · rw [List.cons_prefix_cons] at starts ⊢
            exact ⟨starts.1, ih restForeign starts.2⟩

theorem infix_append_foreign (foreign : ∀ c ∈ stretch, c ∉ value) (nonempty : stretch ≠ [])
    (inside : stretch <:+: value ++ cs) : stretch <:+: cs := by
  induction value with
  | nil => exact inside
  | cons c value ih =>
      rw [List.cons_append, List.infix_cons_iff] at inside
      cases inside with
      | inl starts =>
          obtain ⟨first, rest, rfl⟩ := List.exists_cons_of_ne_nil nonempty
          rw [List.cons_prefix_cons] at starts
          exact absurd (starts.1 ▸ List.mem_cons_self) (foreign first List.mem_cons_self)
      | inr inside =>
          exact ih (fun c member inValue => foreign c member (List.mem_cons_of_mem _ inValue)) inside

theorem infix_of_infix_substituteAfter {skip : Nat} (foreign : ∀ c ∈ stretch, c ∉ value)
    (filled : value ≠ []) (nonempty : stretch ≠ [])
    (inside : stretch <:+: substituteAfter marker value skip cs) : stretch <:+: cs := by
  induction cs generalizing skip with
  | nil => simpa [substituteAfter] using inside
  | cons c cs ih =>
      cases skip with
      | succ skip => exact List.infix_cons (ih inside)
      | zero =>
          -- Only where nothing is replaced can the stretch start with a character that is kept.
          by_cases found : marker.isPrefixOf (c :: cs) = true
          · rw [substituteAfter, if_pos found] at inside
            exact List.infix_cons (ih (infix_append_foreign foreign nonempty inside))
          · have starts : stretch <+: substituteAfter marker value 0 (c :: cs) → stretch <+: c :: cs :=
              prefix_of_prefix_substituteAfter foreign filled
            rw [substituteAfter, if_neg found] at starts inside
            rw [List.infix_cons_iff] at inside ⊢
            exact inside.imp starts ih

theorem mentions_eq_false {line marker : String} :
    mentions line marker = false ↔ ¬ marker.toList <:+: line.toList := by
  rw [mentions, ← occurs_iff_infix, Bool.not_eq_true]

theorem mentions_substitute {line marker value stretch : String} (marked : marker ≠ "")
    (foreign : ∀ c ∈ stretch.toList, c ∉ value.toList) (filled : value ≠ "") (nonempty : stretch ≠ "")
    (absent : mentions line stretch = false) :
    mentions (substitute line marker value) stretch = false := by
  rw [mentions_eq_false] at absent ⊢
  intro inside
  apply absent
  rw [substitute, String.toList_ofList, substituted, if_neg (by simpa using marked)] at inside
  exact infix_of_infix_substituteAfter foreign (by simpa using filled) (by simpa using nonempty) inside

/-! ## Characters -/

section Characters

variable {line marker value : String} {c : Char}

theorem mem_of_mem_substituteAfter {marker value cs : List Char} {skip : Nat}
    (member : c ∈ substituteAfter marker value skip cs) : c ∈ cs ∨ c ∈ value := by
  induction cs generalizing skip with
  | nil => simp [substituteAfter] at member
  | cons d cs ih =>
      cases skip with
      | succ skip => exact (ih member).imp_left (List.mem_cons_of_mem d)
      | zero =>
          rw [substituteAfter] at member
          split at member
          · obtain inValue | later := List.mem_append.mp member
            · exact .inr inValue
            · exact (ih later).imp_left (List.mem_cons_of_mem d)
          · obtain rfl | later := List.mem_cons.mp member
            · exact .inl List.mem_cons_self
            · exact (ih later).imp_left (List.mem_cons_of_mem d)

theorem mem_of_mem_substitute (member : c ∈ (substitute line marker value).toList) :
    c ∈ line.toList ∨ c ∈ value.toList := by
  rw [substitute, String.toList_ofList, substituted] at member
  split at member
  · simp only [List.mem_append, List.mem_flatMap, List.mem_cons] at member
    obtain inValue | ⟨d, inLine, rfl | inValue⟩ := member
    · exact .inr inValue
    · exact .inl inLine
    · exact .inr inValue
  · exact mem_of_mem_substituteAfter member

theorem subset_substituteAfter {marker value cs : List Char} (nonempty : marker ≠ [])
    (found : occurs marker cs = true) : value ⊆ substituteAfter marker value 0 cs := by
  induction cs with
  | nil => simp [occurs, nonempty] at found
  | cons d cs ih =>
      rw [substituteAfter]
      split
      · exact List.subset_append_left _ _
      · next other =>
          rw [occurs, Bool.or_eq_true] at found
          exact List.subset_cons_of_subset d (ih (found.resolve_left other))

theorem subset_substitute (found : mentions line marker = true) :
    value.toList ⊆ (substitute line marker value).toList := by
  rw [substitute, String.toList_ofList, substituted]
  split
  · exact List.subset_append_left _ _
  · next nonempty => exact subset_substituteAfter nonempty found

end Characters

end Text
end Cookbook
