import Cookbook.Proofs.Markup.Document
import Mathlib.Data.List.TakeWhile

/-!
Where the pieces of a written document end: what the reader looks for to end a piece is not found in it
before.
-/

namespace Cookbook.Markup

/-! ## Where tags end -/

theorem splitAtClose_append {complete : List Char → Bool} {before cs rest : List Char}
    (closes : complete (cs.reverse ++ before) = true)
    (first : ∀ front back, cs = front ++ '>' :: back → complete (front.reverse ++ before) = false) :
    splitAtClose complete before (cs ++ '>' :: rest) = some (before.reverse ++ cs, rest) := by
  induction cs generalizing before with
  | nil =>
      have closes : complete before = true := closes
      simp [splitAtClose, closes]
  | cons c cs ih =>
      have open_ : (c = '>' && complete before) = false := by
        by_cases angle : c = '>'
        · have early := first [] cs (by rw [angle, List.nil_append])
          simpa [angle] using early
        · simp [angle]
      rw [List.cons_append, splitAtClose, open_]
      simp only [Bool.false_eq_true, if_false]
      rw [ih]
      · simp
      · simpa using closes
      · intro front back split
        have early := first (c :: front) back (by rw [split, List.cons_append])
        simpa using early

/-- That a reader that looks for the end of a tag gets past characters outside of quotes. -/
def Passes (cs : List Char) : Prop :=
  ∀ rest, splitAtTagEnd none (cs ++ rest) =
    (splitAtTagEnd none rest).map fun (tag, after) => (cs ++ tag, after)

theorem passes_nil : Passes [] := by
  intro rest
  simp

theorem Passes.append {front back : List Char} (first : Passes front) (second : Passes back) :
    Passes (front ++ back) := by
  intro rest
  rw [List.append_assoc, first, second, Option.map_map]
  congr 1
  funext ⟨tag, after⟩
  simp

def isPlain (c : Char) : Bool := c ≠ '>' && c ≠ '"' && c ≠ '\''

theorem passes_plain {cs : List Char} (plain : cs.all isPlain = true) : Passes cs := by
  induction cs with
  | nil => exact passes_nil
  | cons c cs ih =>
      rw [List.all_cons, Bool.and_eq_true] at plain
      obtain ⟨⟨⟨angle, double⟩, single⟩, rest⟩ : ((c ≠ '>' ∧ c ≠ '"') ∧ c ≠ '\'') ∧ _ := by
        simpa [isPlain] using plain
      intro after
      rw [List.cons_append, splitAtTagEnd]
      simp only [angle, double, single, and_false, or_self, if_false]
      rw [ih plain.2, Option.map_map]
      rfl

theorem splitAtTagEnd_quoted {quote : Char} {value rest : List Char} (closed : quote ∉ value) :
    splitAtTagEnd (some quote) (value ++ quote :: rest) =
      (splitAtTagEnd none rest).map fun (tag, after) => (value ++ quote :: tag, after) := by
  induction value with
  | nil => simp [splitAtTagEnd]
  | cons c value ih =>
      rw [List.mem_cons, not_or] at closed
      obtain ⟨different, closed⟩ := closed
      rw [List.cons_append, splitAtTagEnd]
      simp only [reduceCtorEq, false_and, if_false, Ne.symm different]
      rw [ih closed, Option.map_map]
      rfl

theorem passes_quoted {quote : Quote} {value : List Char} (closed : quote.char ∉ value) :
    Passes (quote.char :: value ++ [quote.char]) := by
  intro rest
  have opens : quote.char = '"' ∨ quote.char = '\'' := by cases quote <;> decide
  have noAngle : quote.char ≠ '>' := by cases quote <;> decide
  rw [List.cons_append, List.cons_append, splitAtTagEnd]
  simp only [noAngle, opens, and_false, if_false, if_true]
  rw [List.append_assoc, List.singleton_append, splitAtTagEnd_quoted closed, Option.map_map]
  congr 1
  funext ⟨tag, after⟩
  simp

theorem all_isPlain_of_gaps (gaps : Gaps) : gaps.chars.all isPlain = true := by
  rw [List.all_eq_true]
  intro c member
  have gap := List.all_eq_true.mp gaps.gaps c member
  simp only [isGap, Bool.or_eq_true, decide_eq_true_eq] at gap
  rcases gap with ((rfl | rfl) | rfl) | rfl <;> decide

theorem isNameChar_iff {c : Char} : isNameChar c = true ↔
    isGap c = false ∧ c ≠ '<' ∧ c ≠ '>' ∧ c ≠ '/' ∧ c ≠ '!' ∧ c ≠ '?' ∧ c ≠ '=' ∧ c ≠ '"' ∧ c ≠ '\'' := by
  simp [isNameChar]

theorem Name.isNameChar (name : Name) {c : Char} (member : c ∈ name.chars) :
    Markup.isNameChar c = true :=
  List.all_eq_true.mp name.plain c member

theorem Name.all_isPlain (name : Name) : name.chars.all isPlain = true := by
  rw [List.all_eq_true]
  intro c member
  obtain ⟨-, -, angle, -, -, -, -, double, single⟩ := isNameChar_iff.mp (name.isNameChar member)
  simp [isPlain, angle, double, single]

theorem Attribute.passes (a : Attribute) : Passes a.chars := by
  have sign : Passes ['='] := passes_plain rfl
  have before := passes_plain (all_isPlain_of_gaps a.before)
  have name := passes_plain a.name.all_isPlain
  have around := passes_plain (all_isPlain_of_gaps a.beforeSign)
  have after := passes_plain (all_isPlain_of_gaps a.afterSign)
  exact ((((before.append name).append around).append sign).append after).append
    (passes_quoted a.closed)

theorem Tag.passes (tag : Tag) : Passes tag.chars := by
  refine (passes_plain tag.name.all_isPlain).append (Passes.append ?_ ?_)
  · induction tag.attributes with
    | nil => exact passes_nil
    | cons a attributes ih => exact a.passes.append ih
  · exact passes_plain (all_isPlain_of_gaps tag.gaps)

theorem Passes.split {cs : List Char} (passes : Passes cs) (rest : List Char) :
    splitAtTagEnd none (cs ++ '>' :: rest) = some (cs, rest) := by
  rw [passes]
  simp [splitAtTagEnd]

/-! ## Names of tags -/

theorem Gaps.head (gaps : Gaps) {c : Char} (first : c ∈ gaps.chars.head?) : isGap c = true :=
  List.all_eq_true.mp gaps.gaps c (List.mem_of_mem_head? first)

theorem Tag.takeWhile_chars (tag : Tag) :
    tag.chars.takeWhile (fun c => !isGap c) = tag.name.chars := by
  refine Text.takeWhile_append_of_all ?_ ?_
  · rw [List.all_eq_true]
    intro c member
    simp [(isNameChar_iff.mp (tag.name.isNameChar member)).1]
  · intro c first
    rw [Bool.not_eq_false']
    cases attributes : tag.attributes with
    | nil =>
        rw [attributes] at first
        exact tag.gaps.head first
    | cons a rest =>
        rw [attributes] at first
        refine a.before.head ?_
        cases chars : a.before.chars with
        | nil => exact absurd chars a.apart
        | cons gap gaps => simpa [Attribute.chars, chars] using first

theorem Tag.getLast?_chars (tag : Tag) : tag.chars.getLast? ≠ some '/' := by
  have noSlash {gaps : Gaps} : gaps.chars.getLast? ≠ some '/' := by
    intro last
    have gap := List.all_eq_true.mp gaps.gaps '/' (List.mem_of_getLast? last)
    cases gap
  have append {front back : List Char} (first : front.getLast? ≠ some '/')
      (second : back.getLast? ≠ some '/') : (front ++ back).getLast? ≠ some '/' := by
    rw [List.getLast?_append]
    cases last : back.getLast? with
    | none => simpa using first
    | some c => simpa [last] using second
  refine append ?_ (append ?_ noSlash)
  · intro last
    have plain := isNameChar_iff.mp (tag.name.isNameChar (List.mem_of_getLast? last))
    simp at plain
  · induction tag.attributes with
    | nil => simp
    | cons a attributes ih =>
        have last : a.chars.getLast? = some a.quote.char := by
          rw [Attribute.chars, List.getLast?_append, List.getLast?_append]
          simp
        refine append ?_ ih
        rw [last]
        cases a.quote <;> decide

theorem Tag.chars_eq_cons (tag : Tag) :
    ∃ c cs, tag.chars = c :: cs ∧ isNameChar c = true := by
  cases chars : tag.name.chars with
  | nil => exact absurd chars tag.name.nonempty
  | cons c cs =>
      refine ⟨c, _, by rw [Tag.chars, chars, List.cons_append], tag.name.isNameChar ?_⟩
      simp [chars]

/-! ## Instructions and closing tags -/

variable {cs rest : List Char}

theorem splitAtAngle_append (plain : '>' ∉ cs) : splitAtAngle (cs ++ '>' :: rest) = (cs, rest) := by
  have all : cs.all (· ≠ '>') = true := by
    rw [List.all_eq_true]
    rintro c member
    rw [decide_eq_true_eq]
    rintro rfl
    exact plain member
  rw [splitAtAngle, Text.takeWhile_append_of_all all (by simp),
    Text.dropWhile_append_of_all all (by simp)]
  rfl

theorem Name.no_angle (name : Name) : '>' ∉ name.chars := by
  intro member
  have plain := isNameChar_iff.mp (name.isNameChar member)
  simp at plain

theorem Gaps.no_angle (gaps : Gaps) : '>' ∉ gaps.chars := by
  intro member
  have gap := List.all_eq_true.mp gaps.gaps _ member
  cases gap

theorem dropLastGaps_append (gaps : Gaps) (last : ∀ c ∈ cs.getLast?, isGap c = false) :
    dropLastGaps (cs ++ gaps.chars) = cs := by
  rw [dropLastGaps, List.reverse_append]
  unfold dropGaps
  rw [Text.dropWhile_append_of_all, List.reverse_reverse]
  · simpa using gaps.gaps
  · simpa using last

theorem Name.getLast_not_gap (name : Name) : ∀ c ∈ name.chars.getLast?, isGap c = false :=
  fun _ last => (isNameChar_iff.mp (name.isNameChar (List.mem_of_getLast? last))).1

/-! ## Comments, quoted data and document types -/

theorem eq_append_of_take_reverse {front : List Char} {a b : Char}
    (ends : front.reverse.take 2 = [a, b]) : ∃ start, front = start ++ [b, a] := by
  refine ⟨(front.reverse.drop 2).reverse, ?_⟩
  have whole := congrArg List.reverse (List.take_append_drop 2 front.reverse)
  rw [ends] at whole
  simpa using whole.symm

theorem mark_within {body start mark back : List Char} (plain : '>' ∉ mark)
    (split : body ++ mark = start ++ mark ++ '>' :: back) : mark ++ ['>'] <:+: body := by
  have split : body ++ mark = (start ++ (mark ++ ['>'])) ++ back := by simpa using split
  obtain ⟨more, longer, marked⟩ | ⟨more, longer, -⟩ := List.append_eq_append_iff.mp split
  · obtain rfl | ⟨front, last, rfl⟩ := List.eq_nil_or_concat more
    · exact ⟨start, [], by simpa using longer⟩
    · have longer : (start ++ mark) ++ ['>'] = (body ++ front) ++ [last] := by simpa using longer
      obtain rfl := List.singleton_inj.mp (List.append_inj' longer rfl).2
      exact absurd (by simp [marked]) plain
  · exact ⟨start, more, by simp [longer]⟩

theorem afterBang_comment (rest : List Char) {body : List Char} (closed : ¬ ['-', '-'] <:+: body ++ ['-']) :
    afterBang (['-', '-'] ++ body ++ ['-', '-'] ++ '>' :: rest) = .ok rest := by
  have split : splitAtClose (fun before => before.take 2 = ['-', '-'] && 4 ≤ before.length) []
      (['-', '-'] ++ body ++ ['-', '-'] ++ '>' :: rest) =
        some (['-', '-'] ++ body ++ ['-', '-'], rest) := by
    refine splitAtClose_append (by simp) ?_
    intro front back split
    rw [List.append_nil, Bool.eq_false_iff]
    intro complete
    simp only [Bool.and_eq_true, decide_eq_true_eq, List.length_reverse] at complete
    obtain ⟨ends, long⟩ := complete
    obtain ⟨start, rfl⟩ := eq_append_of_take_reverse ends
    match start, long with
    | first :: second :: start, _ =>
        have inner : body ++ ['-', '-'] = start ++ ['-', '-'] ++ '>' :: back := by
          simpa using (List.cons.inj (List.cons.inj split).2).2
        have within := mark_within (by decide) inner
        have shorter : ['-', '-'] <:+: ['-', '-'] ++ ['>'] := ⟨[], ['>'], rfl⟩
        exact closed ((shorter.trans within).trans ⟨[], ['-'], rfl⟩)
  unfold afterBang
  simp only [List.cons_append, List.nil_append] at split ⊢
  rw [split]
  rfl

theorem afterBang_quoted (rest : List Char) {body : List Char} (closed : ¬ [']', ']', '>'] <:+: body) :
    afterBang ("[CDATA[".toList ++ body ++ [']', ']'] ++ '>' :: rest) = .ok rest := by
  have split : splitAtClose (fun before => before.take 2 = [']', ']']) []
      ("[CDATA[".toList ++ body ++ [']', ']'] ++ '>' :: rest) =
        some ("[CDATA[".toList ++ body ++ [']', ']'], rest) := by
    refine splitAtClose_append (by simp) ?_
    intro front back split
    rw [List.append_nil, decide_eq_false_iff_not]
    intro ends
    obtain ⟨start, rfl⟩ := eq_append_of_take_reverse ends
    have split : "[CDATA[".toList ++ (body ++ [']', ']']) = start ++ ([']', ']'] ++ '>' :: back) := by
      simpa using split
    have noBracket : ']' ∉ "[CDATA[".toList := by decide
    -- A mark that ends sooner would lie in the body, which holds none, or reach into the opening, which
    -- has no bracket of this kind.
    obtain ⟨more, -, inner⟩ | ⟨more, opening, inner⟩ := List.append_eq_append_iff.mp split
    · have inner : body ++ [']', ']'] = more ++ [']', ']'] ++ '>' :: back := by simpa using inner
      exact closed (mark_within (by decide) inner)
    · cases more with
      | nil =>
          have inner : body ++ [']', ']'] = [] ++ [']', ']'] ++ '>' :: back := by
            simpa using inner.symm
          exact closed (mark_within (by decide) inner)
      | cons c more =>
          obtain rfl := (List.cons.inj inner).1
          exact absurd (by rw [opening]; simp) noBracket
  have bracket : "[CDATA[".toList ++ body ++ [']', ']'] ++ '>' :: rest =
      '[' :: ("CDATA[".toList ++ body ++ [']', ']'] ++ '>' :: rest) := by simp
  rw [bracket] at split ⊢
  simp only [afterBang, split]
  have like : startsLike ("[CDATA[".toList ++ body ++ [']', ']']) "[CDATA[".toList = true := by
    simp [startsLike]
  rw [like]
  rfl

theorem afterBang_documentType (rest : List Char) {body : List Char} (named : body.all isGap = false)
    (plain : '<' ∉ body ∧ '>' ∉ body) :
    afterBang ("DOCTYPE".toList ++ body ++ '>' :: rest) = .ok rest := by
  have split : splitAtClose (fun before => before.count '<' = before.count '>') []
      ("DOCTYPE".toList ++ body ++ '>' :: rest) = some ("DOCTYPE".toList ++ body, rest) := by
    refine splitAtClose_append ?_ ?_
    · simp [List.count_eq_zero.mpr plain.1, List.count_eq_zero.mpr plain.2]
    · intro front back split
      have angle : '>' ∈ "DOCTYPE".toList ++ body := by
        rw [split]
        simp
      have outside : '>' ∉ "DOCTYPE".toList := by decide
      exact absurd angle (by simp only [List.mem_append, outside, plain.2, or_self, not_false_eq_true])
  have letter : "DOCTYPE".toList ++ body ++ '>' :: rest =
      'D' :: ("OCTYPE".toList ++ body ++ '>' :: rest) := by simp
  rw [letter] at split ⊢
  have like : startsLike ("DOCTYPE".toList ++ body) "DOCTYPE".toList = true := by
    simp [startsLike]
  have name : (dropGaps (("DOCTYPE".toList ++ body).drop 7)).isEmpty = false := by
    have after : ("DOCTYPE".toList ++ body).drop 7 = body := by simp
    rw [after, List.isEmpty_eq_false_iff]
    intro none
    have all := List.dropWhile_eq_nil_iff.mp none
    rw [List.all_eq_true.mpr all] at named
    cases named
  simp only [afterBang, split, like, name]
  rfl

end Cookbook.Markup
