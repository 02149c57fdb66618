import Cookbook.Proofs.Text.Lines
import Mathlib.Data.List.Basic

/-!
How lines end. Reading a text takes one carriage return from each line that a line feed ends, so that
some of its lines still end in one if two stood before a line feed, or one at the end of the text
(`endsPlainly_iff`). When the lines are written, these are what stands before line feeds
(`returnFeed_unlines_iff`), and the next reading takes one from each again (`lines_relined`).
-/

namespace Cookbook
namespace Text

/-! ## Stretches before a line feed -/

section Feeds

variable {feed : Char} {stretch front back : List Char}

theorem infix_append_cons (whole : feed ∉ stretch) (first : feed ∉ front) :
    stretch ++ [feed] <:+: front ++ feed :: back ↔
      stretch <:+ front ∨ stretch ++ [feed] <:+: back := by
  constructor
  · rintro ⟨before, after, same⟩
    have parts : (before ++ stretch) ++ feed :: after = front ++ feed :: back := by simpa using same
    obtain ⟨rest, rfl, tail⟩ | ⟨rest, heads, tail⟩ := List.append_eq_append_iff.mp parts
    · cases rest with
      | nil => exact .inl ⟨before, (List.append_nil _).symm⟩
      | cons c rest =>
          obtain ⟨rfl, -⟩ := List.cons.inj tail
          exact absurd (by simp) first
    · cases rest with
      | nil => exact .inl ⟨before, by simpa using heads⟩
      | cons c rest =>
          obtain ⟨rfl, rfl⟩ := List.cons.inj tail
          -- The stretch has no separator, so that it starts after the first one.
          have heads : before ++ stretch = (front ++ [feed]) ++ rest := by simpa using heads
          obtain ⟨between, middle, rfl⟩ | ⟨between, rfl, rfl⟩ := List.append_eq_append_iff.mp heads
          · obtain rfl | ⟨start, last, rfl⟩ := List.eq_nil_or_concat' between
            · exact .inr ⟨[], after, by simp⟩
            · rw [← List.append_assoc] at middle
              obtain ⟨-, same⟩ := List.append_inj' middle rfl
              exact absurd (by simp [List.singleton_inj.mp same]) whole
          · exact .inr ⟨between, after, by simp⟩
  · rintro (⟨before, rfl⟩ | ⟨before, after, rfl⟩)
    · exact ⟨before, back, by simp⟩
    · exact ⟨front ++ feed :: before, after, by simp⟩

end Feeds

/-! ## Lines that end in a carriage return -/

def Returned (line : String) : Prop := line.toList.getLast? = some '\r'

instance (line : String) : Decidable (Returned line) :=
  inferInstanceAs (Decidable (_ = _))

/-- That no line of a text ends in more carriage returns than reading it takes away. -/
def EndsPlainly (text : String) : Prop :=
  ¬ ['\r', '\r', '\n'] <:+: text.toList ∧ ¬ Returned text

instance (text : String) : Decidable (EndsPlainly text) :=
  inferInstanceAs (Decidable (_ ∧ _))

theorem lines_unfed {text : String} (unfed : '\n' ∉ text.toList) (nonempty : text ≠ "") :
    lines text = [text] := by
  simp [lines, fields_of_notMem unfed, nonempty]

theorem eq_unfed_or_append (text : String) :
    '\n' ∉ text.toList ∨ ∃ front back, text = front ++ "\n" ++ back ∧ '\n' ∉ front.toList := by
  by_cases fed : '\n' ∈ text.toList
  · obtain ⟨front, back, split, first⟩ := List.eq_append_cons_of_mem fed
    refine .inr ⟨String.ofList front, String.ofList back, ?_, by simpa using first⟩
    rw [← String.toList_inj, split]
    simp
  · exact .inl fed

theorem returned_dropReturn (cs : List Char) :
    Returned (String.ofList (dropReturn cs)) ↔ ['\r', '\r'] <:+ cs := by
  have pair : ['\r', '\r'] = ['\r'] ++ ['\r'] := rfl
  unfold Returned dropReturn
  rw [String.toList_ofList]
  split
  · next ended =>
      obtain ⟨start, rfl⟩ := List.getLast?_eq_some_iff.mp ended
      rw [List.dropLast_concat, pair, List.suffix_append_self_iff,
        List.singleton_suffix_iff_getLast?_eq_some]
  · next unended =>
      refine iff_of_false unended ?_
      rw [pair]
      intro twice
      apply unended
      rw [← List.singleton_suffix_iff_getLast?_eq_some]
      exact (List.suffix_append _ _).trans twice

theorem lines_fed {front : String} (unfed : '\n' ∉ front.toList) (back : String) :
    lines (front ++ "\n" ++ back) = String.ofList (dropReturn front.toList) :: lines back := by
  rw [lines_append, broken, fields_of_notMem unfed, List.map_singleton, List.singleton_append]

theorem returned_append (front : String) (back : String) :
    Returned (front ++ "\n" ++ back) ↔ Returned back := by
  unfold Returned
  rw [String.toList_append, String.toList_append]
  cases back.toList with
  | nil => simp
  | cons c cs => simp [List.getLast?_append]

theorem endsPlainly_fed {front : String} (unfed : '\n' ∉ front.toList) (back : String) :
    EndsPlainly (front ++ "\n" ++ back) ↔ ¬ ['\r', '\r'] <:+ front.toList ∧ EndsPlainly back := by
  have chars : (front ++ "\n" ++ back).toList = front.toList ++ '\n' :: back.toList := by simp
  have stretch : ['\r', '\r', '\n'] = ['\r', '\r'] ++ ['\n'] := rfl
  rw [EndsPlainly, EndsPlainly, returned_append, chars, stretch,
    infix_append_cons (by decide) unfed, not_or, and_assoc]

theorem endsPlainly_iff (text : String) :
    EndsPlainly text ↔ ∀ line ∈ lines text, ¬ Returned line := by
  induction length : text.length using Nat.strongRecOn generalizing text with
  | ind length ih =>
      subst length
      obtain unfed | ⟨front, back, rfl, unfed⟩ := eq_unfed_or_append text
      · have noFeed : ¬ ['\r', '\r', '\n'] <:+: text.toList :=
          fun inside => unfed (inside.subset (by simp))
        by_cases empty : text = ""
        · subst empty
          decide
        · rw [lines_unfed unfed empty, List.forall_mem_singleton, EndsPlainly]
          exact and_iff_right noFeed
      · have feed : "\n".length = 1 := rfl
        have shorter : back.length < (front ++ "\n" ++ back).length := by
          simp only [String.length_append, feed]
          omega
        rw [endsPlainly_fed unfed, lines_fed unfed, List.forall_mem_cons, returned_dropReturn,
          ih back.length shorter back rfl]

/-! ## Lines that are written -/

theorem unlines_ended (lines : List String) :
    unlines lines = "" ∨ (unlines lines).toList.getLast? = some '\n' := by
  obtain rfl | ⟨front, last, rfl⟩ := List.eq_nil_or_concat' lines
  · exact .inl rfl
  · refine .inr ?_
    simp [unlines, String.join_append]

theorem returnFeed_unlines_iff {lines : List String} (unfed : ∀ line ∈ lines, '\n' ∉ line.toList) :
    ['\r', '\n'] <:+: (unlines lines).toList ↔ ∃ line ∈ lines, Returned line := by
  induction lines with
  | nil => simp [unlines]
  | cons line lines ih =>
      rw [List.forall_mem_cons] at unfed
      have stretch : ['\r', '\n'] = ['\r'] ++ ['\n'] := rfl
      have rest := ih unfed.2
      rw [stretch] at rest ⊢
      rw [toList_unlines_cons, infix_append_cons (by decide) unfed.1,
        List.singleton_suffix_iff_getLast?_eq_some, rest, List.exists_mem_cons_iff]
      rfl

/-- The lines of a text that is written from lines: each has lost the carriage return at its end. -/
theorem lines_relined {written : List String} (unfed : ∀ line ∈ written, '\n' ∉ line.toList) :
    lines (unlines written) = written.map fun line => String.ofList (dropReturn line.toList) := by
  rw [lines_unlines, ← List.flatMap_pure_eq_map]
  refine List.flatMap_congr ?_
  intro line member
  rw [broken, fields_of_notMem (unfed line member), List.map_singleton]
  rfl

theorem lines_unlines_of_plain {written : List String}
    (unfed : ∀ line ∈ written, '\n' ∉ line.toList) (plain : ∀ line ∈ written, ¬ Returned line) :
    lines (unlines written) = written := by
  rw [lines_unlines]
  refine (List.flatMap_congr fun line member => ?_).trans (List.flatMap_singleton' written)
  exact broken_eq_self (unfed line member) (plain line member)

theorem unlines_append (front back : List String) :
    unlines (front ++ back) = unlines front ++ unlines back := by
  simp [unlines, String.join_append]

theorem length_dropReturn_le (cs : List Char) : (dropReturn cs).length ≤ cs.length := by
  unfold dropReturn
  split
  · rw [List.length_dropLast]
    omega
  · exact Nat.le_refl _

theorem length_dropReturn_lt {line : String} (returned : Returned line) :
    (dropReturn line.toList).length < line.toList.length := by
  have nonempty : line.toList ≠ [] := fun empty => by simp [Returned, empty] at returned
  have positive := List.length_pos_iff.mpr nonempty
  unfold Returned at returned
  rw [dropReturn, if_pos returned, List.length_dropLast]
  omega

theorem length_relined_le {written : List String} (unfed : ∀ line ∈ written, '\n' ∉ line.toList) :
    (unlines (lines (unlines written))).toList.length ≤ (unlines written).toList.length := by
  rw [lines_relined unfed]
  induction written with
  | nil => exact Nat.le_refl _
  | cons line written ih =>
      have rest := ih (List.forall_mem_cons.mp unfed).2
      have first := length_dropReturn_le line.toList
      simp only [List.map_cons, toList_unlines_cons, List.length_append, List.length_cons,
        String.toList_ofList]
      omega

theorem length_relined_lt {written : List String} (unfed : ∀ line ∈ written, '\n' ∉ line.toList)
    {line : String} (member : line ∈ written) (returned : Returned line) :
    (unlines (lines (unlines written))).toList.length < (unlines written).toList.length := by
  obtain ⟨front, back, rfl⟩ := List.append_of_mem member
  rw [List.forall_mem_append, List.forall_mem_cons] at unfed
  have before := length_relined_le unfed.1
  have after := length_relined_le unfed.2.2
  have here := length_dropReturn_lt returned
  rw [lines_relined unfed.1] at before
  rw [lines_relined unfed.2.2] at after
  rw [lines_relined (List.forall_mem_append.mpr ⟨unfed.1, List.forall_mem_cons.mpr unfed.2⟩)]
  simp only [List.map_append, List.map_cons, unlines_append, String.toList_append,
    toList_unlines_cons, List.length_append, List.length_cons, String.toList_ofList]
  omega

end Text
end Cookbook
