import Cookbook.Placeholder.Plan

/-!
How lines are read. Wrapping, unwrapping and stripping each read the lines of a file at places in and
outside of blocks, and what they make of a file is what they make of each reading. What wrapping wrote
is read again as the blocks it was written for:

* `readings_wrap`: the readings of a wrapped file are those of the file, each filled one written out.
* `readings_unwrapLine_eq`: unwrapping reads the same lines at the same places as wrapping, unless a
  block closes right after it opened.
-/

namespace Cookbook
namespace Block

/-- The lines of a run, each with the place at which it is read. -/
def readings (step : Block → String → Block × List String) : Block → List String →
    List (Block × String)
  | _, [] => []
  | block, line :: lines => (block, line) :: readings step (step block line).1 lines

def final (step : Block → String → Block × List String) : Block → List String → Block
  | block, [] => block
  | block, line :: lines => final step (step block line).1 lines

section Runs

variable (step : Block → String → Block × List String)

theorem run_cons (block : Block) (line : String) (lines : List String) :
    run step block (line :: lines) =
      (step block line).2 ++ run step (step block line).1 lines := rfl

theorem readings_append (block : Block) (front back : List String) :
    readings step block (front ++ back) =
      readings step block front ++ readings step (final step block front) back := by
  induction front generalizing block with
  | nil => rfl
  | cons line front ih => simp [readings, final, ih]

theorem final_append (block : Block) (front back : List String) :
    final step block (front ++ back) = final step (final step block front) back := by
  induction front generalizing block with
  | nil => rfl
  | cons line front ih => simp [final, ih]

theorem run_append (block : Block) (front back : List String) :
    run step block (front ++ back) = run step block front ++ run step (final step block front) back := by
  induction front generalizing block with
  | nil => rfl
  | cons line front ih => simp [run, final, ih]

theorem run_eq_flatMap (block : Block) (lines : List String) :
    run step block lines = (readings step block lines).flatMap fun reading =>
      (step reading.1 reading.2).2 := by
  induction lines generalizing block with
  | nil => rfl
  | cons line lines ih => simp [run, readings, ih]

end Runs

/-! ## Stripping -/

/-- What is left of a line of a working copy when each block loses its opening sentinel, the line right
after it and its closing sentinel. -/
def stripLine (style : CommentStyle) : Block → String → Block × List String
  | .outside, line => if line = style.opening then (.kept, []) else (.outside, [line])
  | .kept, _ => (.generated, [])
  | .generated, line => if line = style.closing then (.outside, []) else (.generated, [line])

def strip (style : CommentStyle) (lines : List String) : List String :=
  run (stripLine style) .outside lines

variable {style : CommentStyle} {marker : String} {generate : String → List String}

theorem wrapLine_place (block : Block) (line : String) :
    (wrapLine style marker generate block line).1 = (stripLine style block line).1 := by
  cases block with
  | kept => rfl
  | outside => grind [wrapLine, stripLine]
  | generated => grind [wrapLine, stripLine]

theorem readings_wrapLine (block : Block) (lines : List String) :
    readings (wrapLine style marker generate) block lines =
      readings (stripLine style) block lines := by
  induction lines generalizing block with
  | nil => rfl
  | cons line lines ih => rw [readings, readings, wrapLine_place, ih]

theorem readings_outside {lines : List String} (unopened : style.opening ∉ lines) :
    readings (stripLine style) .outside lines = lines.map fun line => (.outside, line) := by
  induction lines with
  | nil => rfl
  | cons line lines ih =>
      rw [List.mem_cons, not_or] at unopened
      simp [readings, stripLine, Ne.symm unopened.1, ih unopened.2]

/-! ## What wrapping fills in -/

/-- Whether wrapping fills in a line where it is read: outside of blocks the line gets a block of its
own, among generated lines it is generated anew. -/
def isFilled (style : CommentStyle) (marker : String) : Block × String → Bool
  | (.outside, line) => line ≠ style.opening && Text.mentions line marker
  | (.kept, _) => false
  | (.generated, line) => line ≠ style.closing && Text.mentions line marker

def filled (style : CommentStyle) (marker : String) (generate : String → List String)
    (lines : List String) : List (Block × String) :=
  (readings (wrapLine style marker generate) .outside lines).filter (isFilled style marker)

/-- How the lines that wrapping writes for a reading are read again. -/
def refill (style : CommentStyle) (marker : String) (generate : String → List String)
    (reading : Block × String) : List (Block × String) :=
  if isFilled style marker reading then
    let lines := (generate reading.2).map fun line => (.generated, line)
    match reading.1 with
    | .outside =>
        (.outside, style.opening) :: (.kept, style.comment reading.2) :: lines ++
          [(.generated, style.closing)]
    | .kept | .generated => lines
  else [reading]

theorem readings_generated {lines : List String} (unclosed : style.closing ∉ lines) :
    readings (stripLine style) .generated lines = lines.map (fun line => (.generated, line)) ∧
      final (stripLine style) .generated lines = .generated := by
  induction lines with
  | nil => exact ⟨rfl, rfl⟩
  | cons line lines ih =>
      rw [List.mem_cons, not_or] at unclosed
      simp [readings, final, stripLine, Ne.symm unclosed.1, ih unclosed.2]

theorem readings_wrapLine_written (block : Block) (line : String)
    (unclosed : isFilled style marker (block, line) → style.closing ∉ generate line) :
    readings (stripLine style) block (wrapLine style marker generate block line).2 =
        refill style marker generate (block, line) ∧
      final (stripLine style) block (wrapLine style marker generate block line).2 =
        (stripLine style block line).1 := by
  cases block with
  | kept => exact ⟨rfl, rfl⟩
  | outside =>
      by_cases opens : line = style.opening
      · simp [wrapLine, refill, isFilled, readings, final, opens]
      · by_cases mentions : Text.mentions line marker = true
        · have generated := readings_generated (unclosed (by simp [isFilled, opens, mentions]))
          simp [wrapLine, refill, isFilled, opens, mentions, readings, final, stripLine,
            readings_append, final_append, generated]
        · simp [wrapLine, refill, isFilled, readings, final, opens, mentions]
  | generated =>
      by_cases closes : line = style.closing
      · simp [wrapLine, refill, isFilled, readings, final, closes]
      · by_cases mentions : Text.mentions line marker = true
        · have generated := readings_generated (unclosed (by simp [isFilled, closes, mentions]))
          simp [wrapLine, refill, isFilled, closes, mentions, generated, stripLine]
        · simp [wrapLine, refill, isFilled, readings, final, closes, mentions]

theorem readings_wrap (block : Block) (lines : List String)
    (unclosed : ∀ reading ∈ readings (stripLine style) block lines,
      isFilled style marker reading → style.closing ∉ generate reading.2) :
    readings (stripLine style) block (run (wrapLine style marker generate) block lines) =
      (readings (stripLine style) block lines).flatMap (refill style marker generate) := by
  induction lines generalizing block with
  | nil => rfl
  | cons line lines ih =>
      rw [readings, List.forall_mem_cons] at unclosed
      obtain ⟨written, place⟩ := readings_wrapLine_written block line unclosed.1
      have rest := ih _ unclosed.2
      rw [run, readings_append, written, place, wrapLine_place, rest, readings, List.flatMap_cons]

/-! ## Unwrapping -/

theorem unwrapLine_place {block : Block} {line : String}
    (nonempty : (Block.kept, style.closing) ≠ (block, line)) :
    (unwrapLine style block line).1 = (stripLine style block line).1 := by
  cases block with
  | kept =>
      -- Unwrapping takes a block that closes at once for closed, wrapping for one that goes on.
      have other : line ≠ style.closing := fun closes => nonempty (by rw [closes])
      simp [unwrapLine, stripLine, other]
  | outside => by_cases opens : line = style.opening <;> simp [unwrapLine, stripLine, opens]
  | generated => by_cases closes : line = style.closing <;> simp [unwrapLine, stripLine, closes]

theorem readings_unwrapLine {block : Block} {lines : List String}
    (nonempty : (.kept, style.closing) ∉ readings (unwrapLine style) block lines ∨
      (.kept, style.closing) ∉ readings (stripLine style) block lines) :
    readings (unwrapLine style) block lines = readings (stripLine style) block lines := by
  induction lines generalizing block with
  | nil => rfl
  | cons line lines ih =>
      simp only [readings, List.mem_cons, not_or] at nonempty
      have place : (unwrapLine style block line).1 = (stripLine style block line).1 :=
        unwrapLine_place (nonempty.elim And.left And.left)
      rw [place] at nonempty
      rw [readings, readings, place, ih (nonempty.imp And.right And.right)]

end Block
end Cookbook
