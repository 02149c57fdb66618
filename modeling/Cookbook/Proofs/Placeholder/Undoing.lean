import Cookbook.Proofs.Placeholder.Rewrapping
import Cookbook.Proofs.Text.Substitute

/-!
When a wrapped edit can be undone. Lines without an opening sentinel are wrapped and unwrapped one by
one, so it comes down to what is left of a line with the marker (`undone`):

* the line itself, if neither its comment nor the line that is filled in closes the block;
* the line and a closing sentinel, if the line that is filled in closes the block;
* for the bare text of the closing sentinel, whose comment closes the block, the filled in line and a
  closing sentinel. If the filled in line is an opening sentinel, the two make a block that goes away.

What is left over and what goes away never make up for each other (`undone_lengths`).
-/

namespace Cookbook

section Lengths

variable {α : Type} {f : α → List α} {xs : List α}

theorem length_le_length_flatMap (some_ : ∀ x ∈ xs, 1 ≤ (f x).length) :
    xs.length ≤ (xs.flatMap f).length := by
  induction xs with
  | nil => exact Nat.le_refl _
  | cons x xs ih =>
      rw [List.forall_mem_cons] at some_
      have rest := ih some_.2
      rw [List.flatMap_cons, List.length_append, List.length_cons]
      omega

theorem length_flatMap_le_length (few : ∀ x ∈ xs, (f x).length ≤ 1) :
    (xs.flatMap f).length ≤ xs.length := by
  induction xs with
  | nil => exact Nat.le_refl _
  | cons x xs ih =>
      rw [List.forall_mem_cons] at few
      have rest := ih few.2
      rw [List.flatMap_cons, List.length_append, List.length_cons]
      omega

/-- Where nothing is lost, or nothing added, only what stays as it is makes up the same list. -/
theorem flatMap_eq_self_iff
    (lengths : (∀ x ∈ xs, 1 ≤ (f x).length) ∨ ∀ x ∈ xs, (f x).length ≤ 1) :
    xs.flatMap f = xs ↔ ∀ x ∈ xs, f x = [x] := by
  induction xs with
  | nil => simp
  | cons x xs ih =>
      simp only [List.forall_mem_cons] at lengths ⊢
      have rest := ih (lengths.imp And.right And.right)
      rw [List.flatMap_cons]
      constructor
      · intro same
        have single : (f x).length = 1 := by
          have total := congrArg List.length same
          rw [List.length_append, List.length_cons] at total
          obtain ⟨some_, more⟩ | ⟨few, fewer⟩ := lengths
          · have atLeast := length_le_length_flatMap more
            omega
          · have atMost := length_flatMap_le_length fewer
            omega
        obtain ⟨y, one⟩ := List.length_eq_one_iff.mp single
        rw [one, List.singleton_append, List.cons.injEq] at same
        obtain ⟨rfl, same⟩ := same
        exact ⟨one, rest.mp same⟩
      · rintro ⟨one, others⟩
        rw [one, rest.mpr others, List.singleton_append]

end Lengths

namespace CommentStyle

variable {style : CommentStyle}

theorem opening_ne_closing (style : CommentStyle) : style.opening ≠ style.closing := by
  cases style <;> decide

theorem comment_eq_closing {line : String} :
    style.comment line = style.closing ↔ line = "<<< WORKING_COPY <<<" :=
  ⟨fun closes => by_contra fun other => comment_ne_closing other closes, fun bare => by rw [bare, closing]⟩

end CommentStyle

namespace Edit

open Block (run final unwrapLine wrapLine)

variable {style : CommentStyle} {marker value line : String} {lines : List String}

/-- What is left of a line that stands outside of blocks when it is wrapped and unwrapped again. -/
def undone (style : CommentStyle) (edit : Edit) (line : String) : List String :=
  run (unwrapLine style) .outside (wrapLine style edit.marker edit.generate .outside line).2

theorem undone_unmentioned (plain : line ≠ style.opening) (unmentioned : ¬ Text.mentions line marker = true) :
    (inline marker value).undone style line = [line] := by
  simp [undone, Edit.marker, wrapLine, unwrapLine, run, plain, unmentioned]

/-- What is left of a line whose comment closes the block, or whose filled in line does. -/
def undoneInline (style : CommentStyle) (line value filled : String) : List String :=
  if line = "<<< WORKING_COPY <<<" then
    if value = "" then [style.closing] else if filled = style.opening then [] else [filled, style.closing]
  else if value ≠ "" ∧ filled = style.closing then [line, style.closing]
  else [line]

theorem unwrapLine_inline (plain : line ≠ style.opening) (mentioned : Text.mentions line marker = true) :
    final (unwrapLine style) .outside
        (wrapLine style marker (inline marker value).generate .outside line).2 = .outside ∧
      (inline marker value).undone style line =
        undoneInline style line value (Text.substitute line marker value) := by
  have written : wrapLine style marker (inline marker value).generate .outside line =
      (.outside, style.opening :: style.comment line ::
        (if value = "" then [] else [Text.substitute line marker value]) ++ [style.closing]) := by
    rw [wrapLine, if_neg plain, if_pos mentioned, generate]
  have apart := style.opening_ne_closing
  unfold undone undoneInline
  rw [Edit.marker, written]
  by_cases bare : line = "<<< WORKING_COPY <<<"
  · have closes : style.comment line = style.closing := CommentStyle.comment_eq_closing.mpr bare
    rw [if_pos bare]
    by_cases empty : value = ""
    · simp [run, final, unwrapLine, empty, closes, apart.symm]
    · by_cases opens : Text.substitute line marker value = style.opening <;>
        simp [run, final, unwrapLine, empty, closes, opens, apart.symm]
  · have goesOn : style.comment line ≠ style.closing := CommentStyle.comment_ne_closing bare
    rw [if_neg bare]
    by_cases empty : value = ""
    · simp [run, final, unwrapLine, empty, goesOn]
    · by_cases ends : Text.substitute line marker value = style.closing <;>
        simp [run, final, unwrapLine, empty, goesOn, ends, apart.symm]

theorem unwrap_wrap_inline (unopened : style.opening ∉ lines) :
    Block.unwrap style ((inline marker value).wrap style lines) =
      lines.flatMap ((inline marker value).undone style) := by
  have outside : ∀ line, line ≠ style.opening → (wrapLine style marker
      (inline marker value).generate .outside line).1 = .outside ∧ final (unwrapLine style) .outside
        (wrapLine style marker (inline marker value).generate .outside line).2 = .outside := by
    intro line plain
    by_cases mentioned : Text.mentions line marker = true
    · exact ⟨by simp [wrapLine, plain, mentioned], (unwrapLine_inline plain mentioned).1⟩
    · simp [final, wrapLine, unwrapLine, plain, mentioned]
  induction lines with
  | nil => rfl
  | cons line lines ih =>
      rw [List.mem_cons, not_or] at unopened
      obtain ⟨next, closed⟩ := outside line (Ne.symm unopened.1)
      have rest := ih unopened.2
      unfold Block.unwrap Edit.wrap Block.wrap at rest ⊢
      rw [Block.run_cons, Block.run_append, Edit.marker, next, closed, List.flatMap_cons, ← rest]
      rfl

/-! ## What can be undone -/

theorem greater_mem_value (opens : Text.substitute "<<< WORKING_COPY <<<" marker value = style.opening) :
    '>' ∈ value.toList := by
  have inOpening : '>' ∈ style.opening.toList := by cases style <;> decide
  rw [← opens] at inOpening
  exact (Text.mem_of_mem_substitute inOpening).resolve_left (by decide)

theorem substitute_ne_closing (greater : '>' ∈ value.toList) (mentioned : Text.mentions line marker = true) :
    Text.substitute line marker value ≠ style.closing := by
  intro ends
  have inClosing : '>' ∈ style.closing.toList := ends ▸ Text.subset_substitute mentioned greater
  revert inClosing
  cases style <;> decide

/-- Lines do not go away from some places and stay over in others: a value that opens a block has a
character that no closing sentinel has. -/
theorem undone_lengths (unopened : style.opening ∉ lines) :
    (∀ line ∈ lines, 1 ≤ ((inline marker value).undone style line).length) ∨
      ∀ line ∈ lines, ((inline marker value).undone style line).length ≤ 1 := by
  have plain : ∀ line ∈ lines, line ≠ style.opening := fun line member opens => unopened (opens ▸ member)
  by_cases goesAway : Text.substitute "<<< WORKING_COPY <<<" marker value = style.opening
  · right
    intro line member
    by_cases mentioned : Text.mentions line marker = true
    · have goesOn : Text.substitute line marker value ≠ style.closing :=
        substitute_ne_closing (greater_mem_value goesAway) mentioned
      rw [(unwrapLine_inline (plain line member) mentioned).2, undoneInline]
      split
      · next bare =>
          rw [bare, if_pos goesAway]
          split <;> simp
      · simp [goesOn]
    · rw [undone_unmentioned (plain line member) mentioned]
      exact Nat.le_refl 1
  · left
    intro line member
    by_cases mentioned : Text.mentions line marker = true
    · rw [(unwrapLine_inline (plain line member) mentioned).2, undoneInline]
      split
      · next bare =>
          rw [bare, if_neg goesAway]
          split <;> simp
      · split <;> simp
    · rw [undone_unmentioned (plain line member) mentioned]
      exact Nat.le_refl 1

theorem undone_eq_self_iff (plain : line ≠ style.opening) :
    (inline marker value).undone style line = [line] ↔
      (Text.mentions line marker = true → line ≠ "<<< WORKING_COPY <<<" ∧
        (value = "" ∨ Text.substitute line marker value ≠ style.closing)) := by
  by_cases mentioned : Text.mentions line marker = true
  · rw [(unwrapLine_inline plain mentioned).2, undoneInline]
    by_cases bare : line = "<<< WORKING_COPY <<<"
    · have other : style.closing ≠ line := by
        rw [bare]
        cases style <;> decide
      refine iff_of_false ?_ fun restored => (restored mentioned).1 bare
      rw [if_pos bare]
      by_cases empty : value = ""
      · simp [empty, other]
      · rw [if_neg empty]
        split <;> simp
    · rw [if_neg bare]
      by_cases ends : value ≠ "" ∧ Text.substitute line marker value = style.closing
      · simp [mentioned, ends]
      · rw [if_neg ends]
        simp only [ne_eq, true_iff, mentioned, bare, not_false_eq_true, true_and, forall_const]
        tauto
  · rw [undone_unmentioned plain mentioned]
    simp [mentioned]

/-- Wrapping an inline edit can be undone exactly if no line with the marker is the bare text of the
closing sentinel, and none becomes the closing sentinel when it is filled in. -/
theorem unwrap_wrap_inline_eq_iff (style : CommentStyle) (marker value : String) (lines : List String)
    (unopened : style.opening ∉ lines) :
    Block.unwrap style ((inline marker value).wrap style lines) = lines ↔
      (∀ line ∈ lines, Text.mentions line marker = true → line ≠ "<<< WORKING_COPY <<<") ∧
      (value = "" ∨ ∀ line ∈ lines, Text.mentions line marker = true →
        Text.substitute line marker value ≠ style.closing) := by
  have plain : ∀ line ∈ lines, line ≠ style.opening := fun line member opens => unopened (opens ▸ member)
  calc
    Block.unwrap style ((inline marker value).wrap style lines) = lines
        ↔ lines.flatMap ((inline marker value).undone style) = lines := by
          rw [unwrap_wrap_inline unopened]
    _ ↔ ∀ line ∈ lines, (inline marker value).undone style line = [line] :=
          flatMap_eq_self_iff (undone_lengths unopened)
    _ ↔ ∀ line ∈ lines, Text.mentions line marker = true → line ≠ "<<< WORKING_COPY <<<" ∧
          (value = "" ∨ Text.substitute line marker value ≠ style.closing) :=
          forall₂_congr fun line member => undone_eq_self_iff (plain line member)
    _ ↔ _ := by
          by_cases empty : value = "" <;> grind

/-- A value with the text of a sentinel that can be undone, and one that closes its block. -/
theorem unwrap_wrap_inline_eq_iff_sentinels :
    Block.unwrap .gradle ((inline "$A" "<<< WORKING_COPY <<<").wrap .gradle
        ["x $A", "//  <<< WORKING_COPY <<<"]) = ["x $A", "//  <<< WORKING_COPY <<<"] ∧
      Block.unwrap .gradle ((inline "$A" "<<< WORKING_COPY <<<").wrap .gradle
        ["//  $A", "y"]) ≠ ["//  $A", "y"] := by
  constructor
  · exact (unwrap_wrap_inline_eq_iff .gradle _ _ _ (by decide)).mpr ⟨by decide, .inr (by decide)⟩
  · intro restored
    have goesOn := ((unwrap_wrap_inline_eq_iff .gradle _ _ _ (by decide)).mp restored).2
    exact absurd rfl (goesOn.resolve_left (by decide) "//  $A" List.mem_cons_self (by decide))

end Edit

end Cookbook
