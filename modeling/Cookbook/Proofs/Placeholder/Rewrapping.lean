import Cookbook.Proofs.Placeholder.Readings
import Mathlib.Data.List.Basic

/-!
Wrapping over and over. Whatever edits are wrapped one after another, unwrapping gives back what it
would have given back before, as long as no edit closes a block early.
-/

namespace Cookbook

namespace Edit

def wrapAll (style : CommentStyle) (edits : List Edit) (lines : List String) : List String :=
  edits.foldl (fun lines edit => edit.wrap style lines) lines

/-- The lines that wrapping an edit puts into blocks as generated ones. -/
def generated (style : CommentStyle) (edit : Edit) (lines : List String) : List String :=
  (Block.filled style edit.marker edit.generate lines).flatMap fun reading =>
    edit.generate reading.2

/-- The lines that wrapping an edit puts into a block of their own. -/
def wrapped (style : CommentStyle) (edit : Edit) (lines : List String) : List String :=
  ((Block.filled style edit.marker edit.generate lines).filter (·.1 = .outside)).map (·.2)

/-- That each edit, wrapped after those before it, has a property on the lines it finds. -/
def Along (style : CommentStyle) (property : Edit → List String → Prop) :
    List Edit → List String → Prop
  | [], _ => True
  | edit :: edits, found => property edit found ∧ Along style property edits (edit.wrap style found)

instance Along.decidable (style : CommentStyle) (property : Edit → List String → Prop)
    [∀ edit lines, Decidable (property edit lines)] :
    (edits : List Edit) → (lines : List String) → Decidable (Along style property edits lines)
  | [], _ => isTrue trivial
  | edit :: edits, found =>
      have := Along.decidable style property edits (edit.wrap style found)
      inferInstanceAs (Decidable (_ ∧ _))

/-- That wrapping an edit puts no line into a block that is, or as a comment is, a closing sentinel. -/
def Contained (style : CommentStyle) (edit : Edit) (lines : List String) : Prop :=
  style.closing ∉ edit.generated style lines ∧
    "<<< WORKING_COPY <<<" ∉ edit.wrapped style lines

instance (style : CommentStyle) (edit : Edit) (lines : List String) :
    Decidable (edit.Contained style lines) :=
  inferInstanceAs (Decidable (_ ∧ _))

end Edit

namespace CommentStyle

variable {style : CommentStyle}

theorem comment_ne_closing {line : String} (other : line ≠ "<<< WORKING_COPY <<<") :
    style.comment line ≠ style.closing := by
  intro equal
  exact other (by simpa [closing, comment] using equal)

@[simp] theorem uncomment_comment (line : String) : style.uncomment (style.comment line) = line := by
  simp [uncomment, comment, ← String.length_toList]

end CommentStyle

namespace Edit

open Block (readings unwrapLine stripLine refill isFilled filled)

variable {style : CommentStyle} {edit : Edit} {lines : List String}

theorem closing_notMem_generate (unclosed : style.closing ∉ edit.generated style lines)
    {reading : Block × String} (member : reading ∈ readings (stripLine style) .outside lines)
    (fills : isFilled style edit.marker reading) : style.closing ∉ edit.generate reading.2 := by
  intro closes
  apply unclosed
  rw [generated, List.mem_flatMap]
  refine ⟨reading, ?_, closes⟩
  rw [filled, Block.readings_wrapLine, List.mem_filter]
  exact ⟨member, fills⟩

theorem readings_wrap (unclosed : style.closing ∉ edit.generated style lines) :
    readings (stripLine style) .outside (edit.wrap style lines) =
      (readings (stripLine style) .outside lines).flatMap
        (refill style edit.marker edit.generate) :=
  Block.readings_wrap _ _ fun _ member => closing_notMem_generate unclosed member

theorem Contained.comment_ne_closing (contained : edit.Contained style lines) {line : String}
    (member : (.outside, line) ∈ readings (stripLine style) .outside lines)
    (fills : isFilled style edit.marker (.outside, line)) : style.comment line ≠ style.closing := by
  apply CommentStyle.comment_ne_closing
  intro bare
  apply contained.2
  simp only [wrapped, filled, Block.readings_wrapLine, List.mem_map, List.mem_filter]
  exact ⟨(.outside, line), ⟨⟨member, fills⟩, by simp⟩, bare⟩

theorem unwrapLine_generated (line : String) : (unwrapLine style .generated line).2 = [] := by
  by_cases closes : line = style.closing <;> simp [unwrapLine, closes]

theorem unwrapLine_refill (contained : edit.Contained style lines) {reading : Block × String}
    (member : reading ∈ readings (stripLine style) .outside lines) :
    (refill style edit.marker edit.generate reading).flatMap
        (fun reading => (unwrapLine style reading.1 reading.2).2) =
      (unwrapLine style reading.1 reading.2).2 := by
  by_cases fills : isFilled style edit.marker reading = true
  · obtain ⟨block, line⟩ := reading
    cases block with
    | kept => simp [isFilled] at fills
    | generated => simp [refill, fills, unwrapLine_generated]
    | outside =>
        have plain : line ≠ style.opening := by
          intro opens
          simp [isFilled, opens] at fills
        have opened : (unwrapLine style .outside style.opening).2 = [] := by simp [unwrapLine]
        have kept : (unwrapLine style .kept (style.comment line)).2 = [line] := by
          simp [unwrapLine, contained.comment_ne_closing member fills]
        have passed : (unwrapLine style .outside line).2 = [line] := by simp [unwrapLine, plain]
        simp [refill, fills, unwrapLine_generated, opened, kept, passed]
  · simp [refill, fills]

theorem wrap_nonempty (contained : edit.Contained style lines)
    (nonempty : (.kept, style.closing) ∉ readings (stripLine style) .outside lines) :
    (.kept, style.closing) ∉ readings (stripLine style) .outside (edit.wrap style lines) := by
  rw [readings_wrap contained.1]
  intro member
  obtain ⟨⟨block, line⟩, source, member⟩ := List.mem_flatMap.mp member
  by_cases fills : isFilled style edit.marker (block, line) = true
  · cases block with
    | kept => simp [isFilled] at fills
    | generated => simp [refill, fills] at member
    | outside =>
        have kept := contained.comment_ne_closing source fills
        simp [refill, fills, kept.symm] at member
  · have same : (Block.kept, style.closing) = (block, line) := by simpa [refill, fills] using member
    exact nonempty (same ▸ source)

theorem unwrap_wrap (contained : edit.Contained style lines)
    (nonempty : (.kept, style.closing) ∉ readings (stripLine style) .outside lines) :
    Block.unwrap style (edit.wrap style lines) = Block.unwrap style lines := by
  have wrapped := wrap_nonempty contained nonempty
  rw [Block.unwrap, Block.unwrap, Block.run_eq_flatMap, Block.run_eq_flatMap,
    Block.readings_unwrapLine (.inr nonempty), Block.readings_unwrapLine (.inr wrapped),
    readings_wrap contained.1, List.flatMap_assoc]
  exact List.flatMap_congr fun reading member => unwrapLine_refill contained member

theorem unwrap_wrapAll {edits : List Edit} (contained : Along style (Contained style) edits lines)
    (nonempty : (.kept, style.closing) ∉ readings (stripLine style) .outside lines) :
    Block.unwrap style (wrapAll style edits lines) = Block.unwrap style lines := by
  induction edits generalizing lines with
  | nil => rfl
  | cons edit edits ih =>
      rw [← unwrap_wrap contained.1 nonempty]
      exact ih contained.2 (wrap_nonempty contained.1 nonempty)

theorem unwrap_unopened (unopened : style.opening ∉ lines) : Block.unwrap style lines = lines := by
  have outside := Block.readings_outside unopened
  have nonempty : (.kept, style.closing) ∉ readings (stripLine style) .outside lines := by
    simp [outside]
  rw [Block.unwrap, Block.run_eq_flatMap, Block.readings_unwrapLine (.inr nonempty), outside,
    List.flatMap_map]
  have passed : ∀ line ∈ lines, (unwrapLine style .outside line).2 = [line] := by
    intro line member
    have plain : line ≠ style.opening := fun opens => unopened (opens ▸ member)
    simp [unwrapLine, plain]
  rw [List.flatMap_congr passed, List.flatMap_singleton']

theorem unwrap_rewrapped (style : CommentStyle) (edits : List Edit) (lines : List String)
    (nonempty : (.kept, style.closing) ∉ readings (unwrapLine style) .outside lines)
    (contained : Along style (Contained style) edits lines) :
    Block.unwrap style (wrapAll style edits lines) = Block.unwrap style lines ∧
      (style.opening ∉ lines → Block.unwrap style (wrapAll style edits lines) = lines) := by
  have restored : Block.unwrap style (wrapAll style edits lines) = Block.unwrap style lines := by
    apply unwrap_wrapAll contained
    rwa [← Block.readings_unwrapLine (.inl nonempty)]
  exact ⟨restored, fun unopened => restored.trans (unwrap_unopened unopened)⟩

/-- A block whose generated line is written anew, a stray closing sentinel, a line with two markers and
a block left open; the last edit has the empty marker. -/
theorem unwrap_rewrapped_stray :
    Block.unwrap .gradle (wrapAll .gradle
      [.inline "$A" "$B!", .lines "$B" ["p", "q $A"], .inline "" "z"]
      ["//  >>> WORKING_COPY >>>", "//  x $A", "x $A", "//  <<< WORKING_COPY <<<", "a $A $B",
        "//  <<< WORKING_COPY <<<", "//  >>> WORKING_COPY >>>", "y $A", "tail $B"]) =
      ["x $A", "a $A $B", "//  <<< WORKING_COPY <<<", "y $A"] :=
  (unwrap_rewrapped _ _ _ (by decide +kernel) (by decide +kernel)).1.trans (by decide +kernel)

end Edit

end Cookbook
