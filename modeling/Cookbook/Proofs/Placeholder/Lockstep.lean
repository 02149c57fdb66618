import Cookbook.Proofs.Placeholder.Readings
import Mathlib.Data.List.Basic

/-!
Wrapping and unwrapping in lockstep. Both take the same lines for opening and closing sentinels, with
one exception: when a block closes right after it opened, unwrapping is outside of blocks again, while
wrapping takes the closing sentinel for the kept line and goes on in the block. So they agree on what
stands outside of blocks up to the line after such a block (`outside_alike_iff`).
-/

namespace Cookbook
namespace Block

/-- Where the line of the given number is read, counted from zero. -/
def placeOf (step : Block → String → Block × List String) (lines : List String) (number : Nat) : Block :=
  final step .outside (lines.take number)

variable {style : CommentStyle} {marker : String} {generate : String → List String}
  {block : Block} {lines front back : List String} {line : String} {number : Nat}

theorem mem_readings_iff {step : Block → String → Block × List String} {start : Block} :
    (block, line) ∈ readings step start lines ↔
      ∃ front back, lines = front ++ line :: back ∧ final step start front = block := by
  constructor
  · intro member
    induction lines generalizing start with
    | nil => cases member
    | cons first lines ih =>
        rw [readings, List.mem_cons] at member
        obtain equal | member := member
        · cases equal
          exact ⟨[], lines, rfl, rfl⟩
        · obtain ⟨front, back, rfl, place⟩ := ih member
          exact ⟨first :: front, back, rfl, place⟩
  · rintro ⟨front, back, rfl, rfl⟩
    rw [readings_append, readings]
    exact List.mem_append_right _ List.mem_cons_self

theorem final_concat (step : Block → String → Block × List String) (start : Block) (front : List String)
    (line : String) : final step start (front ++ [line]) = (step (final step start front) line).1 := by
  rw [final_append]
  rfl

/-- Only an opening sentinel outside of blocks leads to where a line is kept. -/
theorem unwrapLine_eq_kept (kept : (unwrapLine style block line).1 = .kept) :
    block = .outside ∧ line = style.opening := by
  cases block with
  | outside => by_cases opens : line = style.opening <;> simp_all [unwrapLine]
  | kept => by_cases closes : line = style.closing <;> simp_all [unwrapLine]
  | generated => by_cases closes : line = style.closing <;> simp_all [unwrapLine]

theorem eq_concat_of_final_kept (kept : final (unwrapLine style) .outside lines = .kept) :
    ∃ front, lines = front ++ [style.opening] ∧ final (unwrapLine style) .outside front = .outside := by
  rcases List.eq_nil_or_concat lines with rfl | ⟨front, line, rfl⟩
  · cases kept
  · rw [List.concat_eq_append, final_concat] at kept
    obtain ⟨outside, rfl⟩ := unwrapLine_eq_kept kept
    exact ⟨front, List.concat_eq_append, outside⟩

/-! ## Where the two are -/

theorem final_wrapLine (block : Block) (lines : List String) :
    final (wrapLine style marker generate) block lines = final (stripLine style) block lines := by
  induction lines generalizing block with
  | nil => rfl
  | cons line lines ih => rw [final, final, wrapLine_place, ih]

theorem final_unwrapLine (nonempty : (.kept, style.closing) ∉ readings (unwrapLine style) block lines) :
    final (unwrapLine style) block lines = final (stripLine style) block lines := by
  induction lines generalizing block with
  | nil => rfl
  | cons line lines ih =>
      rw [readings, List.mem_cons, not_or] at nonempty
      have place : (unwrapLine style block line).1 = (stripLine style block line).1 :=
        unwrapLine_place nonempty.1
      rw [final, final, ih nonempty.2, place]

/-- That no block closes right after it opened, unless the lines end there. -/
def KeepsLines (style : CommentStyle) (lines : List String) : Prop :=
  ∀ front back, lines = front ++ style.opening :: style.closing :: back →
    final (unwrapLine style) .outside front = .outside → back = []

theorem KeepsLines.placeOf_eq (keeps : KeepsLines style lines) (inside : number < lines.length) :
    placeOf (wrapLine style marker generate) lines number = placeOf (unwrapLine style) lines number := by
  rw [placeOf, placeOf, final_wrapLine, final_unwrapLine]
  intro member
  obtain ⟨front, back, whole, kept⟩ := mem_readings_iff.mp member
  obtain ⟨before, rfl, outside⟩ := eq_concat_of_final_kept kept
  have split : lines = before ++ style.opening :: style.closing :: (back ++ lines.drop number) := by
    conv_lhs => rw [← lines.take_append_drop number, whole]
    simp
  have ended := (List.append_eq_nil_iff.mp (keeps before _ split outside)).2
  rw [List.drop_eq_nil_iff] at ended
  omega

/-- After a block that closes right after it opened, unwrapping is outside of blocks and wrapping is not. -/
theorem placeOf_after_empty (outside : final (unwrapLine style) .outside front = .outside)
    (before : placeOf (wrapLine style marker generate)
      (front ++ style.opening :: style.closing :: back) front.length = .outside) :
    placeOf (wrapLine style marker generate) (front ++ style.opening :: style.closing :: back)
        (front.length + 2) = .generated ∧
      placeOf (unwrapLine style) (front ++ style.opening :: style.closing :: back)
        (front.length + 2) = .outside := by
  have upTo : (front ++ style.opening :: style.closing :: back).take (front.length + 2) =
      front ++ [style.opening, style.closing] := List.take_length_add_append 2
  rw [placeOf, List.take_left] at before
  rw [placeOf, placeOf, upTo, final_append, final_append, before, outside]
  simp [final, wrapLine, unwrapLine]

/-- Wrapping and unwrapping find the same lines outside of blocks just if no block that closes right after
it opened is followed by another line, and then they read every line at the same place. -/
theorem outside_alike_iff (style : CommentStyle) (marker : String) (generate : String → List String)
    (lines : List String) :
    ((∀ number < lines.length, placeOf (wrapLine style marker generate) lines number = .outside ↔
        placeOf (unwrapLine style) lines number = .outside) ↔ KeepsLines style lines) ∧
      (KeepsLines style lines → ∀ number < lines.length,
        placeOf (wrapLine style marker generate) lines number = placeOf (unwrapLine style) lines number) := by
  refine ⟨⟨?_, ?_⟩, fun keeps number inside => keeps.placeOf_eq inside⟩
  · rintro alike front back rfl outside
    by_contra more
    have some_ : 0 < back.length := List.length_pos_iff.mpr more
    have before := (alike front.length (by simp)).mpr (by rwa [placeOf, List.take_left])
    obtain ⟨inBlock, after⟩ := placeOf_after_empty outside before
    rw [(alike (front.length + 2) (by simp; omega)).mpr after] at inBlock
    cases inBlock
  · intro keeps number inside
    rw [keeps.placeOf_eq inside]

/-- A stray closing sentinel, an opening one inside of a block, and a block that is left open. -/
def malformedLines : List String :=
  ["#  <<< WORKING_COPY <<<", "#  >>> WORKING_COPY >>>", "#  a $A", "#  >>> WORKING_COPY >>>", "a",
    "#  <<< WORKING_COPY <<<", "$A", "#  >>> WORKING_COPY >>>", "$A"]

theorem outside_alike_iff_malformed :
    KeepsLines .properties malformedLines ∧
    (∀ number < malformedLines.length,
      placeOf (wrapLine .properties "$A" fun _ => ["a"]) malformedLines number =
        placeOf (unwrapLine .properties) malformedLines number) ∧
    placeOf (unwrapLine .properties) malformedLines 6 = .outside := by
  have alike := outside_alike_iff .properties "$A" (fun _ => ["a"]) malformedLines
  have keeps := alike.1.mp (by decide)
  exact ⟨keeps, alike.2 keeps, by decide⟩

/-- A block without a kept line: what comes after it is outside of blocks only when it is unwrapped, so
that wrapping changes it for good. -/
theorem outside_alike_fails :
    (¬ ∀ (style : CommentStyle) (marker : String) (generate : String → List String)
      (lines : List String), ∀ number < lines.length,
        (placeOf (wrapLine style marker generate) lines number = .outside ↔
          placeOf (unwrapLine style) lines number = .outside)) ∧
    wrap .gradle "$A" (fun _ => ["a"])
        ["//  >>> WORKING_COPY >>>", "//  <<< WORKING_COPY <<<", "x $A"] =
      ["//  >>> WORKING_COPY >>>", "//  <<< WORKING_COPY <<<", "a"] ∧
    unwrap .gradle ["//  >>> WORKING_COPY >>>", "//  <<< WORKING_COPY <<<", "x $A"] = ["x $A"] := by
  refine ⟨?_, by decide, by decide⟩
  intro alike
  have after := alike .gradle "$A" (fun _ => ["a"])
    ["//  >>> WORKING_COPY >>>", "//  <<< WORKING_COPY <<<", "x $A"] 2 (by decide)
  exact absurd (after.mpr (by decide)) (by decide)

end Block
end Cookbook
