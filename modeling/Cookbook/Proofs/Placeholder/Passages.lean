import Cookbook.Proofs.Placeholder.Rewrapping
import Mathlib.Data.List.Forall2

/-!
Documents made of passages: lines outside of blocks, and blocks, in any order. Unwrapping leaves one line
of each passage, the one it was made from (`madeFrom_unwrap`). So documents that differ in generated lines
only come from the same lines, and lines outside of blocks stay as they are edited (`unwrap_passages`).
-/

namespace Cookbook

/-- A line that opens no block, or a block. What is written in a block may be any lines but the closing
sentinel. -/
inductive Passage (style : CommentStyle)
  | plain (line : String) (unopened : line ≠ style.opening)
  | block (kept : String) (generated : List String)
      (nonempty : kept ≠ style.closing) (unclosed : style.closing ∉ generated)

namespace Passage

open Block (run final unwrapLine)

variable {style : CommentStyle}

def lines : Passage style → List String
  | plain line _ => [line]
  | block kept generated _ _ => style.opening :: kept :: generated ++ [style.closing]

/-- The line that a passage was made from: the kept line of a block loses the mark of a comment, if it
starts with it. -/
inductive MadeFrom : Passage style → String → Prop
  | plain {line : String} {unopened : line ≠ style.opening} : MadeFrom (.plain line unopened) line
  | comment {line : String} {generated : List String} {nonempty : style.comment line ≠ style.closing}
      {unclosed : style.closing ∉ generated} :
      MadeFrom (.block (style.comment line) generated nonempty unclosed) line
  | unmarked {kept : String} {generated : List String} {nonempty : kept ≠ style.closing}
      {unclosed : style.closing ∉ generated} (unmarked : ∀ line, kept ≠ style.comment line) :
      MadeFrom (.block kept generated nonempty unclosed) kept

/-- That two passages differ at most in generated lines. -/
inductive Alike : Passage style → Passage style → Prop
  | plain {line : String} {unopened unopened' : line ≠ style.opening} :
      Alike (.plain line unopened) (.plain line unopened')
  | block {kept : String} {generated generated' : List String}
      {nonempty nonempty' : kept ≠ style.closing} {unclosed : style.closing ∉ generated}
      {unclosed' : style.closing ∉ generated'} :
      Alike (.block kept generated nonempty unclosed) (.block kept generated' nonempty' unclosed')

def original : Passage style → String
  | plain line _ => line
  | block kept _ _ _ => style.uncomment kept

theorem Alike.original_eq {passage other : Passage style} (alike : passage.Alike other) :
    other.original = passage.original := by
  cases alike <;> rfl

end Passage

theorem CommentStyle.uncomment_of_unmarked {style : CommentStyle} {line : String}
    (unmarked : ∀ rest, line ≠ style.comment rest) : style.uncomment line = line := by
  rw [uncomment, if_neg]
  intro starts
  obtain ⟨rest, whole⟩ := List.isPrefixOf_iff_prefix.mp starts
  apply unmarked (String.ofList rest)
  rw [← String.toList_inj, comment, String.toList_append, String.toList_ofList, whole]

theorem Passage.madeFrom_original {style : CommentStyle} (passage : Passage style) :
    passage.MadeFrom passage.original := by
  cases passage with
  | plain line unopened => exact .plain
  | block kept generated nonempty unclosed =>
      by_cases marked : ∃ line, kept = style.comment line
      · obtain ⟨line, rfl⟩ := marked
        rw [original, CommentStyle.uncomment_comment]
        exact .comment
      · have unmarked : ∀ line, kept ≠ style.comment line := not_exists.mp marked
        rw [original, CommentStyle.uncomment_of_unmarked unmarked]
        exact .unmarked unmarked

/-! ## Unwrapping passages -/

namespace Block

variable {style : CommentStyle} {front : List String}

theorem unwrap_append (outside : final (unwrapLine style) .outside front = .outside) (back : List String) :
    unwrap style (front ++ back) = unwrap style front ++ unwrap style back := by
  rw [unwrap, run_append, outside, unwrap, unwrap]

theorem final_unwrapLine_unopened {lines : List String} (unopened : style.opening ∉ lines) :
    final (unwrapLine style) .outside lines = .outside := by
  induction lines with
  | nil => rfl
  | cons line lines ih =>
      rw [List.mem_cons, not_or] at unopened
      rw [final, unwrapLine, if_neg (Ne.symm unopened.1), ih unopened.2]

theorem run_generated {generated : List String} (unclosed : style.closing ∉ generated) :
    run (unwrapLine style) .generated (generated ++ [style.closing]) = [] ∧
      final (unwrapLine style) .generated (generated ++ [style.closing]) = .outside := by
  induction generated with
  | nil => simp [run, final, unwrapLine]
  | cons line generated ih =>
      rw [List.mem_cons, not_or] at unclosed
      have passed : unwrapLine style .generated line = (.generated, []) := by
        rw [unwrapLine, if_neg (Ne.symm unclosed.1)]
      rw [List.cons_append, run, final, passed]
      exact ih unclosed.2

end Block

namespace Passage

open Block (run final unwrap unwrapLine)

variable {style : CommentStyle}

theorem unwrap_lines (passage : Passage style) :
    unwrap style passage.lines = [passage.original] ∧
      final (unwrapLine style) .outside passage.lines = .outside := by
  cases passage with
  | plain line unopened => simp [lines, original, unwrap, run, final, unwrapLine, unopened]
  | block kept generated nonempty unclosed =>
      obtain ⟨passed, closed⟩ := Block.run_generated unclosed
      simp [lines, original, unwrap, run, final, unwrapLine, nonempty, passed, closed]

theorem unwrap_flatMap_lines (document : List (Passage style)) :
    unwrap style (document.flatMap lines) = document.map original ∧
      final (unwrapLine style) .outside (document.flatMap lines) = .outside := by
  induction document with
  | nil => exact ⟨rfl, rfl⟩
  | cons passage document ih =>
      obtain ⟨restored, outside⟩ := passage.unwrap_lines
      rw [List.flatMap_cons, Block.unwrap_append outside, Block.final_append, restored, outside, ih.1, ih.2]
      exact ⟨rfl, rfl⟩

theorem madeFrom_unwrap (document : List (Passage style)) :
    List.Forall₂ MadeFrom document (unwrap style (document.flatMap lines)) := by
  rw [(unwrap_flatMap_lines document).1, List.forall₂_map_right_iff, List.forall₂_same]
  exact fun passage _ => passage.madeFrom_original

/-- Unwrapping restores the line of every passage, whatever the generated lines are. Lines that stand
outside of blocks, between any passages, go through as they are. -/
theorem unwrap_passages (style : CommentStyle) (document : List (Passage style)) :
    List.Forall₂ MadeFrom document (unwrap style (document.flatMap lines)) ∧
    (∀ other, List.Forall₂ Alike document other →
      unwrap style (other.flatMap lines) = unwrap style (document.flatMap lines)) ∧
    ∀ (edited : List String) (rest : List (Passage style)), style.opening ∉ edited →
      unwrap style (document.flatMap lines ++ edited ++ rest.flatMap lines) =
        unwrap style (document.flatMap lines) ++ edited ++ unwrap style (rest.flatMap lines) := by
  obtain ⟨originals, outside⟩ := unwrap_flatMap_lines document
  refine ⟨madeFrom_unwrap document, ?_, ?_⟩
  · intro other alike
    rw [originals, (unwrap_flatMap_lines other).1]
    clear originals outside
    induction alike with
    | nil => rfl
    | cons first _ ih => rw [List.map_cons, List.map_cons, first.original_eq, ih]
  · intro edited rest unopened
    rw [List.append_assoc, Block.unwrap_append outside,
      Block.unwrap_append (Block.final_unwrapLine_unopened unopened), Edit.unwrap_unopened unopened,
      List.append_assoc]

/-- A file of plugins with a kept line that was edited, and what comes of its generated lines. -/
def plugins (agp kotlin : List String) (unclosed : CommentStyle.gradle.closing ∉ agp)
    (unclosed' : CommentStyle.gradle.closing ∉ kotlin) : List (Passage .gradle) :=
  [.plain "plugins \x7b" (by decide), .block "//    id 'a' version $AGP_VERSION" agp (by decide) unclosed,
    .block "  id 'k' version $KOTLIN_VERSION" kotlin (by decide) unclosed']

/-- One copy holds an opening sentinel among its generated lines, the other holds none at all. -/
theorem unwrap_passages_edited :
    Block.unwrap .gradle ["plugins \x7b", "//  >>> WORKING_COPY >>>", "//    id 'a' version $AGP_VERSION",
        "//  >>> WORKING_COPY >>>", "  id 'a' version $AGP_VERSION", "//  <<< WORKING_COPY <<<",
        "//  >>> WORKING_COPY >>>", "  id 'k' version $KOTLIN_VERSION", "//  <<< WORKING_COPY <<<",
        "  // edited", "\x7d"] =
      ["plugins \x7b", "  id 'a' version $AGP_VERSION", "  id 'k' version $KOTLIN_VERSION", "  // edited",
        "\x7d"] ∧
    Block.unwrap .gradle ["plugins \x7b", "//  >>> WORKING_COPY >>>", "//    id 'a' version $AGP_VERSION",
        "//  <<< WORKING_COPY <<<", "//  >>> WORKING_COPY >>>", "  id 'k' version $KOTLIN_VERSION",
        "//  <<< WORKING_COPY <<<"] =
      ["plugins \x7b", "  id 'a' version $AGP_VERSION", "  id 'k' version $KOTLIN_VERSION"] := by
  obtain ⟨-, alike, edited⟩ := unwrap_passages .gradle
    (plugins ["//  >>> WORKING_COPY >>>", "  id 'a' version $AGP_VERSION"] [] (by decide) (by decide))
  have restored := (unwrap_flatMap_lines (plugins ["//  >>> WORKING_COPY >>>",
    "  id 'a' version $AGP_VERSION"] [] (by decide) (by decide))).1
  constructor
  · exact (edited ["  // edited", "\x7d"] [] (by decide)).trans (by rw [restored]; decide)
  · refine (alike (plugins [] [] (by decide) (by decide)) ?_).trans (by rw [restored]; decide)
    exact .cons .plain (.cons .block (.cons .block .nil))

end Passage
end Cookbook
