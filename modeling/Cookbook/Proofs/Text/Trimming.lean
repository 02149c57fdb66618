import Cookbook.Text.Blank
import Mathlib.Data.List.DropRight

/-!
Trimming: blanks around a text that neither starts nor ends with one come off, and nothing else does.
-/

namespace Cookbook.Text

/-- That a text holds something and neither starts nor ends with a blank. -/
structure Settled (cs : List Char) : Prop where
  nonempty : cs ≠ []
  start : ∀ c ∈ cs.head?, isBlank c = false
  last : ∀ c ∈ cs.getLast?, isBlank c = false

instance (cs : List Char) : Decidable (Settled cs) :=
  decidable_of_iff (cs.isEmpty = false ∧ cs.head?.any isBlank = false ∧
    cs.getLast?.any isBlank = false) <| by
      simp only [List.isEmpty_eq_false_iff, Option.any_eq_false]
      exact ⟨fun ⟨nonempty, start, last⟩ => ⟨nonempty, by simpa using start, by simpa using last⟩,
        fun settled => ⟨settled.nonempty, by simpa using settled.start, by simpa using settled.last⟩⟩

theorem dropWhile_append_of_stop {α : Type} {p : α → Bool} {rest : List α} (front : List α)
    (stop : ∀ x ∈ rest.head?, p x = false) :
    (front ++ rest).dropWhile p = front.dropWhile p ++ rest := by
  have stays : rest.dropWhile p = rest := by
    cases rest with
    | nil => rfl
    | cons x rest => exact List.dropWhile_cons_of_neg (by simp [stop x rfl])
  rw [List.dropWhile_append, stays]
  split
  · next none => simp [List.isEmpty_iff.mp none]
  · rfl

theorem dropWhile_append_of_all {α : Type} {p : α → Bool} {front rest : List α}
    (all : front.all p = true) (stop : ∀ x ∈ rest.head?, p x = false) :
    (front ++ rest).dropWhile p = rest := by
  rw [dropWhile_append_of_stop front stop, List.dropWhile_eq_nil_iff.mpr (List.all_eq_true.mp all),
    List.nil_append]

theorem takeWhile_append_of_all {α : Type} {p : α → Bool} {front rest : List α}
    (all : front.all p = true) (stop : ∀ x ∈ rest.head?, p x = false) :
    (front ++ rest).takeWhile p = front := by
  rw [List.takeWhile_append_of_pos (List.all_eq_true.mp all)]
  cases rest with
  | nil => simp
  | cons x rest => simp [stop x rfl]

theorem head?_append_of_ne_nil {α : Type} {front : List α} (nonempty : front ≠ []) (rest : List α) :
    (front ++ rest).head? = front.head? := by
  cases front with
  | nil => exact absurd rfl nonempty
  | cons x front => rfl

theorem getLast?_append_of_ne_nil {α : Type} {rest : List α} (front : List α) (nonempty : rest ≠ []) :
    (front ++ rest).getLast? = rest.getLast? := by
  rw [List.getLast?_append, List.getLast?_eq_some_getLast nonempty]
  rfl

variable {cs before after : List Char}

theorem Settled.reverse (settled : Settled cs) : Settled cs.reverse where
  nonempty := by simpa using settled.nonempty
  start := by simpa using settled.last
  last := by simpa using settled.start

theorem trimmed_around (settled : Settled cs) (blankBefore : before.all isBlank = true)
    (blankAfter : after.all isBlank = true) : trimmed (before ++ cs ++ after) = cs := by
  have front : dropBlanks (before ++ cs ++ after) = cs ++ after := by
    rw [List.append_assoc]
    refine dropWhile_append_of_all blankBefore ?_
    rw [head?_append_of_ne_nil settled.nonempty]
    exact settled.start
  have back : dropBlanks (cs ++ after).reverse = cs.reverse := by
    rw [List.reverse_append]
    exact dropWhile_append_of_all (by simpa using blankAfter) settled.reverse.start
  rw [trimmed, front, back, List.reverse_reverse]

theorem trimmed_of_settled (settled : Settled cs) : trimmed cs = cs := by
  have blank : ([] : List Char).all isBlank = true := rfl
  simpa using trimmed_around settled blank blank

theorem dropBlanks_eq_nil : dropBlanks cs = [] ↔ cs.all isBlank = true := by
  rw [dropBlanks, List.dropWhile_eq_nil_iff, List.all_eq_true]

theorem trimmed_eq_nil : trimmed cs = [] ↔ cs.all isBlank = true := by
  rw [trimmed, List.reverse_eq_nil_iff, dropBlanks_eq_nil, List.all_reverse, ← dropBlanks_eq_nil,
    ← dropBlanks_eq_nil, dropBlanks, dropBlanks, List.dropWhile_idempotent]

theorem dropBlanks_blank_append (blank : before.all isBlank = true) (cs : List Char) :
    dropBlanks (before ++ cs) = dropBlanks cs :=
  List.dropWhile_append_of_pos (List.all_eq_true.mp blank)

theorem trimmed_blank_append (blank : before.all isBlank = true) (cs : List Char) :
    trimmed (before ++ cs) = trimmed cs := by
  rw [trimmed, dropBlanks_blank_append blank, trimmed]

theorem trimmed_append_blank (cs : List Char) (blank : after.all isBlank = true) :
    trimmed (cs ++ after) = trimmed cs := by
  have reversed : after.reverse.all isBlank = true := by rwa [List.all_reverse]
  by_cases all : cs.all isBlank = true
  · rw [trimmed_blank_append all, trimmed_eq_nil.mpr blank, trimmed_eq_nil.mpr all]
  · have kept : (dropBlanks cs).isEmpty = false := by
      rwa [List.isEmpty_eq_false_iff, ne_eq, dropBlanks_eq_nil]
    have front : dropBlanks (cs ++ after) = dropBlanks cs ++ after := by
      rw [dropBlanks, List.dropWhile_append, ← dropBlanks, kept]
      rfl
    rw [trimmed, front, List.reverse_append, dropBlanks_blank_append reversed, trimmed]

theorem exists_dropBlanks (cs : List Char) :
    ∃ before, before.all isBlank = true ∧ cs = before ++ dropBlanks cs :=
  ⟨cs.takeWhile isBlank, List.all_takeWhile, List.takeWhile_append_dropWhile.symm⟩

theorem exists_trimmed (cs : List Char) : ∃ before after, before.all isBlank = true ∧
    after.all isBlank = true ∧ cs = before ++ trimmed cs ++ after := by
  obtain ⟨before, blankBefore, whole⟩ := exists_dropBlanks cs
  obtain ⟨after, blankAfter, rest⟩ := exists_dropBlanks (dropBlanks cs).reverse
  refine ⟨before, after.reverse, blankBefore, by rwa [List.all_reverse], ?_⟩
  have inner : dropBlanks cs = trimmed cs ++ after.reverse := by
    rw [trimmed, ← List.reverse_append, ← rest, List.reverse_reverse]
  rw [List.append_assoc, ← inner, ← whole]

theorem head?_trimmed (cs : List Char) : (trimmed cs).head? = (dropBlanks cs).head? := by
  obtain ⟨after, blank, rest⟩ := exists_dropBlanks (dropBlanks cs).reverse
  have inner : dropBlanks cs = trimmed cs ++ after.reverse := by
    rw [trimmed, ← List.reverse_append, ← rest, List.reverse_reverse]
  by_cases empty : trimmed cs = []
  · rw [empty, dropBlanks_eq_nil.mpr (trimmed_eq_nil.mp empty)]
  · rw [inner, head?_append_of_ne_nil empty]

theorem infix_trimmed (cs : List Char) : trimmed cs <:+: cs := by
  have front : (dropBlanks (dropBlanks cs).reverse).reverse <+: dropBlanks cs := by
    rw [← List.reverse_suffix, List.reverse_reverse]
    exact List.dropWhile_suffix _
  exact front.isInfix.trans (List.dropWhile_suffix _).isInfix

theorem nonBlank?_of_settled {text : String} (settled : Settled text.toList) :
    nonBlank? text = some text := by
  rw [nonBlank?, trim, trimmed_of_settled settled, if_neg settled.nonempty, String.ofList_toList]

end Cookbook.Text
