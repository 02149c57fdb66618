import Cookbook.Placeholder.Plan
import Cookbook.Proofs.Placeholder.Rewrapping
import Cookbook.Proofs.Text.Lines
import Cookbook.Proofs.Text.Substitute

/-!
Working copies of texts. A text is read as lines, wrapped and written, and what was written is read and
unwrapped. Values may break generated lines up when they are read again, but no piece of them closes a
block, so the lines of the text come back.
-/

namespace Cookbook

/-- That a line holds no part of a sentinel and is read again as it is written. -/
structure Restorable (line : String) : Prop where
  unopened : Text.mentions line ">>>" = false
  unclosed : Text.mentions line "<<<" = false
  unreturned : line.toList.getLast? ≠ some '\r'

instance (line : String) : Decidable (Restorable line) :=
  decidable_of_iff
    (Text.mentions line ">>>" = false ∧ Text.mentions line "<<<" = false ∧
      line.toList.getLast? ≠ some '\r')
    ⟨fun ⟨unopened, unclosed, unreturned⟩ => ⟨unopened, unclosed, unreturned⟩,
      fun restorable => ⟨restorable.unopened, restorable.unclosed, restorable.unreturned⟩⟩

/-- Every text that takes the place of a placeholder. -/
def Values.all (values : Values) : List String :=
  [values.agp, values.kotlin, values.compileSdk, values.minimumSdk, values.agpRepository] ++
    values.pluginRepositories ++ values.dependencyRepositories ++ [values.gradleLocation]

namespace Edit

def values : Edit → List String
  | inline _ value => [value]
  | lines _ values => values

theorem wrapEdits_values (template : Template) (values : Values) :
    ∀ edit ∈ template.wrapEdits values,
      edit.marker ≠ "" ∧ ∀ value ∈ edit.values, value ∈ values.all := by
  cases template with
  | build => simp [Template.wrapEdits, marker, Edit.values, Values.all]
  | catalog => simp [Template.wrapEdits, marker, Edit.values, Values.all]
  | wrapper => simp [Template.wrapEdits, marker, Edit.values, Values.all]
  | settings =>
      simp only [Template.wrapEdits, List.forall_mem_cons, marker, Edit.values, Values.all,
        List.mem_append]
      simp +contextual

variable {edit : Edit}

theorem generate_unclosed (marked : edit.marker ≠ "")
    (plain : ∀ value ∈ edit.values, '<' ∉ value.toList) {line : String}
    (unclosed : Text.mentions line "<<<" = false) :
    ∀ made ∈ edit.generate line, Text.mentions made "<<<" = false := by
  intro made member
  cases edit with
  | lines marker values =>
      rw [Text.mentions_eq_false]
      intro inside
      exact plain made member (inside.subset (by decide))
  | inline marker value =>
      rw [generate] at member
      split at member
      · cases member
      · next filled =>
          rw [List.mem_singleton] at member
          subst member
          apply Text.mentions_substitute marked _ filled (by decide) unclosed
          intro c inStretch
          have isLess : c = '<' := by simpa using inStretch
          exact isLess ▸ plain value List.mem_cons_self

end Edit

/-- How the lines of a working copy of a file with the given lines are read. -/
def Fits (style : CommentStyle) (lines : List String) : Block × String → Prop
  | (.outside, line) => line = style.opening ∨ line ∈ lines
  | (.kept, line) => ∃ kept ∈ lines, line = style.comment kept
  | (.generated, line) => line = style.closing ∨ Text.mentions line "<<<" = false

section Fits

open Block (readings stripLine unwrapLine isFilled)
open Text (broken)

variable {style : CommentStyle} {lines found : List String} {edit : Edit}

theorem mentions_closing (style : CommentStyle) : Text.mentions style.closing "<<<" = true := by
  cases style <;> decide

theorem Fits.unclosed (unclosed : ∀ line ∈ lines, Text.mentions line "<<<" = false)
    {reading : Block × String} (fits : Fits style lines reading)
    (fills : isFilled style edit.marker reading) : Text.mentions reading.2 "<<<" = false := by
  obtain ⟨block, line⟩ := reading
  cases block with
  | outside =>
      cases fits with
      | inl opens => simp [isFilled, opens] at fills
      | inr member => exact unclosed line member
  | kept => simp [isFilled] at fills
  | generated =>
      cases fits with
      | inl closes => simp [isFilled, closes] at fills
      | inr absent => exact absent

theorem contained_of_fits (marked : edit.marker ≠ "")
    (plain : ∀ value ∈ edit.values, '<' ∉ value.toList)
    (unclosed : ∀ line ∈ lines, Text.mentions line "<<<" = false)
    (fits : ∀ reading ∈ readings (stripLine style) .outside found, Fits style lines reading) :
    edit.Contained style found := by
  have filledUnclosed : ∀ reading ∈ Block.filled style edit.marker edit.generate found,
      Text.mentions reading.2 "<<<" = false := by
    intro reading member
    rw [Block.filled, Block.readings_wrapLine, List.mem_filter] at member
    exact (fits reading member.1).unclosed unclosed member.2
  constructor
  · intro closes
    obtain ⟨reading, member, made⟩ := List.mem_flatMap.mp closes
    have absent := Edit.generate_unclosed marked plain (filledUnclosed reading member) _ made
    rw [mentions_closing] at absent
    cases absent
  · intro bare
    obtain ⟨reading, member, equal⟩ := List.mem_map.mp bare
    have absent := filledUnclosed reading (List.mem_of_mem_filter member)
    rw [equal] at absent
    revert absent
    decide

theorem fits_wrap (marked : edit.marker ≠ "")
    (plain : ∀ value ∈ edit.values, '<' ∉ value.toList)
    (unclosed : ∀ line ∈ lines, Text.mentions line "<<<" = false)
    (fits : ∀ reading ∈ readings (stripLine style) .outside found, Fits style lines reading) :
    ∀ reading ∈ readings (stripLine style) .outside (edit.wrap style found),
      Fits style lines reading := by
  have contained := contained_of_fits marked plain unclosed fits
  rw [Edit.readings_wrap contained.1]
  intro written member
  obtain ⟨reading, source, member⟩ := List.mem_flatMap.mp member
  by_cases fills : isFilled style edit.marker reading = true
  · have generated := Edit.generate_unclosed marked plain ((fits reading source).unclosed unclosed fills)
    -- A generated line that is filled in makes generated ones. One outside is kept between sentinels.
    obtain ⟨block, line⟩ := reading
    cases block with
    | kept => simp [isFilled] at fills
    | generated =>
        simp only [Block.refill, fills, if_true, List.mem_map] at member
        obtain ⟨made, isMade, rfl⟩ := member
        exact .inr (generated made isMade)
    | outside =>
        simp only [Block.refill, fills, if_true, List.cons_append, List.mem_cons, List.mem_append,
          List.mem_map, List.not_mem_nil, or_false] at member
        rcases member with rfl | rfl | ⟨made, isMade, rfl⟩ | rfl
        · exact .inl rfl
        · refine ⟨line, ?_, rfl⟩
          cases fits _ source with
          | inl opens => simp [isFilled, opens] at fills
          | inr inLines => exact inLines
        · exact .inr (generated made isMade)
        · exact .inl rfl
  · simp only [Block.refill, fills, Bool.false_eq_true, if_false, List.mem_singleton] at member
    exact member ▸ fits reading source

theorem fits_wrapAll {edits : List Edit}
    (proper : ∀ edit ∈ edits, edit.marker ≠ "" ∧ ∀ value ∈ edit.values, '<' ∉ value.toList)
    (unclosed : ∀ line ∈ lines, Text.mentions line "<<<" = false)
    (fits : ∀ reading ∈ readings (stripLine style) .outside found, Fits style lines reading) :
    Edit.Along style (Edit.Contained style) edits found ∧
      ∀ reading ∈ readings (stripLine style) .outside (Edit.wrapAll style edits found),
        Fits style lines reading := by
  induction edits generalizing found with
  | nil => exact ⟨trivial, fits⟩
  | cons edit edits ih =>
      obtain ⟨⟨marked, plain⟩, rest⟩ := List.forall_mem_cons.mp proper
      have wrapped := fits_wrap marked plain unclosed fits
      obtain ⟨along, all⟩ := ih rest wrapped
      exact ⟨⟨contained_of_fits marked plain unclosed fits, along⟩, all⟩

theorem nonempty_of_fits (unclosed : ∀ line ∈ lines, Text.mentions line "<<<" = false)
    (fits : ∀ reading ∈ readings (stripLine style) .outside found, Fits style lines reading) :
    (.kept, style.closing) ∉ readings (stripLine style) .outside found := by
  intro member
  obtain ⟨kept, inLines, closes⟩ := fits _ member
  apply CommentStyle.comment_ne_closing _ closes.symm
  intro bare
  have absent := unclosed kept inLines
  rw [bare] at absent
  revert absent
  decide

/-! ## Reading it again -/

theorem mentions_of_mem_broken {line piece stretch : String} (member : piece ∈ broken line)
    (absent : Text.mentions line stretch = false) : Text.mentions piece stretch = false := by
  obtain ⟨field, isField, rfl⟩ := List.mem_map.mp member
  rw [Text.mentions_eq_false] at absent ⊢
  intro inside
  apply absent
  have kept : Text.dropReturn field <+: field := by
    rw [Text.dropReturn]
    split
    · exact List.dropLast_prefix field
    · exact List.prefix_rfl
  rw [String.toList_ofList] at inside
  exact (inside.trans kept.isInfix).trans (Text.infix_of_mem_fields isField)

theorem run_generated {pieces : List String} (unclosed : style.closing ∉ pieces) (rest : List String) :
    Block.run (unwrapLine style) .generated (pieces ++ rest) =
      Block.run (unwrapLine style) .generated rest := by
  induction pieces with
  | nil => rfl
  | cons piece pieces ih =>
      rw [List.mem_cons, not_or] at unclosed
      have other : piece ≠ style.closing := Ne.symm unclosed.1
      rw [List.cons_append, Block.run_cons, unwrapLine, if_neg other, List.nil_append, ih unclosed.2]

theorem run_unwrapLine_broken {block : Block}
    (steady : ∀ reading ∈ readings (unwrapLine style) block found,
      broken reading.2 = [reading.2] ∨
        reading.1 = .generated ∧ style.closing ∉ reading.2 :: broken reading.2) :
    Block.run (unwrapLine style) block (found.flatMap broken) =
      Block.run (unwrapLine style) block found := by
  induction found generalizing block with
  | nil => rfl
  | cons line found ih =>
      rw [readings, List.forall_mem_cons] at steady
      have rest := ih steady.2
      rw [List.flatMap_cons]
      obtain (same : broken line = [line]) | ⟨(rfl : block = .generated), unclosed⟩ := steady.1
      · rw [same, List.singleton_append, Block.run_cons, Block.run_cons, rest]
      · rw [List.mem_cons, not_or] at unclosed
        have other : line ≠ style.closing := Ne.symm unclosed.1
        rw [unwrapLine, if_neg other] at rest
        rw [run_generated unclosed.2, rest, Block.run_cons, unwrapLine, if_neg other, List.nil_append]

theorem broken_closing (style : CommentStyle) : broken style.closing = [style.closing] := by
  cases style <;> decide

theorem broken_opening (style : CommentStyle) : broken style.opening = [style.opening] := by
  cases style <;> decide

theorem broken_comment {line : String} (unbroken : '\n' ∉ line.toList)
    (unreturned : line.toList.getLast? ≠ some '\r') :
    broken (style.comment line) = [style.comment line] := by
  have mark : '\n' ∉ style.mark.toList ∧ style.mark.toList.getLast? ≠ some '\r' := by
    cases style <;> decide
  apply Text.broken_eq_self
  · simp [CommentStyle.comment, mark.1, unbroken]
  · rw [CommentStyle.comment, String.toList_append, List.getLast?_append]
    cases last : line.toList.getLast? with
    | none => simpa using mark.2
    | some c => simpa [last] using unreturned

theorem steady_of_fits (restorable : ∀ line ∈ lines, Restorable line)
    (unbroken : ∀ line ∈ lines, '\n' ∉ line.toList) {reading : Block × String}
    (fits : Fits style lines reading) :
    broken reading.2 = [reading.2] ∨
      reading.1 = .generated ∧ style.closing ∉ reading.2 :: broken reading.2 := by
  obtain ⟨block, line⟩ := reading
  cases block with
  | outside =>
      left
      cases fits with
      | inl opens => rw [opens, broken_opening]
      | inr member => exact Text.broken_eq_self (unbroken line member) (restorable line member).unreturned
  | kept =>
      left
      obtain ⟨kept, member, rfl⟩ := fits
      exact broken_comment (unbroken kept member) (restorable kept member).unreturned
  | generated =>
      cases fits with
      | inl closes => exact .inl (by rw [closes, broken_closing])
      | inr absent =>
          refine .inr ⟨rfl, ?_⟩
          intro closes
          have closingAbsent : Text.mentions style.closing "<<<" = false := by
            cases List.mem_cons.mp closes with
            | inl equal => exact equal ▸ absent
            | inr member => exact mentions_of_mem_broken member absent
          rw [mentions_closing] at closingAbsent
          cases closingAbsent

end Fits

open Text (lines unlines)

theorem Plan.unwrap_wrap_text (template : Template) {values : Values} {text : String}
    (plain : ∀ value ∈ values.all, '<' ∉ value.toList)
    (restorable : ∀ line ∈ lines text, Restorable line) :
    Plan.unwrap.apply template
      (lines (unlines ((Plan.wrap values).apply template (lines text)))) = lines text := by
  have unclosed := fun line member => (restorable line member).unclosed
  have unopened : template.style.opening ∉ lines text := by
    intro member
    have absent := (restorable _ member).unopened
    revert absent
    cases template.style <;> decide
  have proper : ∀ edit ∈ template.wrapEdits values,
      edit.marker ≠ "" ∧ ∀ value ∈ edit.values, '<' ∉ value.toList := by
    intro edit member
    obtain ⟨marked, fromValues⟩ := Edit.wrapEdits_values template values edit member
    exact ⟨marked, fun value isValue => plain value (fromValues value isValue)⟩
  have outside := Block.readings_outside unopened
  have fitsFirst : ∀ reading ∈ Block.readings (Block.stripLine template.style) .outside (lines text),
      Fits template.style (lines text) reading := by
    rw [outside]
    intro reading member
    obtain ⟨line, inLines, rfl⟩ := List.mem_map.mp member
    exact .inr inLines
  obtain ⟨along, fits⟩ := fits_wrapAll proper unclosed fitsFirst
  -- Line feeds in values break generated lines up, but what unwrapping keeps is read as it was.
  show Block.unwrap template.style
    (lines (unlines (Edit.wrapAll template.style (template.wrapEdits values) (lines text)))) = lines text
  rw [Text.lines_unlines, Block.unwrap, run_unwrapLine_broken]
  · exact (Edit.unwrap_wrapAll along (nonempty_of_fits unclosed fitsFirst)).trans (Edit.unwrap_unopened unopened)
  · rw [Block.readings_unwrapLine (.inr (nonempty_of_fits unclosed fits))]
    intro reading member
    exact steady_of_fits restorable (fun _ => Text.notMem_of_mem_lines) (fits reading member)

end Cookbook
