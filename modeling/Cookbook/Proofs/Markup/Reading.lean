import Cookbook.Proofs.Markup.Ends

/-!
Reading documents: the events of a written document are those of its pieces in order.
-/

namespace Cookbook.Markup

section Except

variable {ε α β γ : Type} (outcome : Except ε α)

theorem except_map_id : outcome.map (fun value => value) = outcome := by
  cases outcome <;> rfl

theorem except_map_map (f : α → β) (g : β → γ) :
    (outcome.map f).map g = outcome.map fun value => g (f value) := by
  cases outcome <;> rfl

end Except

/-! ## One event -/

section Step

variable (fuel : Nat) (opened : List (List Char)) {cs rest : List Char}

attribute [local simp] eventsIn

theorem dropGaps_angle (cs : List Char) : dropGaps ('<' :: cs) = '<' :: cs := by
  simp [dropGaps, isGap]

theorem eventsIn_closing {name tag : List Char} (split : splitAtAngle cs = (tag, rest))
    (named : closingName tag = name) :
    eventsIn (fuel + 1) (name :: opened) ('<' :: '/' :: cs) =
      (eventsIn fuel opened rest).map (.closing name :: ·) := by
  rw [eventsIn, dropGaps_angle]
  simp only [split, named, if_true]
  rfl

theorem eventsIn_bang (after : afterBang cs = .ok rest) :
    eventsIn (fuel + 1) opened ('<' :: '!' :: cs) =
      (eventsIn fuel opened rest).map (.aside :: ·) := by
  rw [eventsIn, dropGaps_angle]
  simp only [after]
  rfl

theorem eventsIn_query {body : List Char} (split : splitAtAngle cs = (body, rest))
    (long : 2 ≤ body.length) (last : body.getLast? = some '?') :
    eventsIn (fuel + 1) opened ('<' :: '?' :: cs) =
      (eventsIn fuel opened rest).map (.aside :: ·) := by
  rw [eventsIn, dropGaps_angle]
  simp only [split, long, last, decide_true, Bool.and_self, if_true]
  rfl

theorem eventsIn_tag {c : Char} {tag : List Char} (named : isNameChar c = true)
    (split : splitAtTagEnd none (c :: cs) = some (tag, rest)) :
    eventsIn (fuel + 1) opened ('<' :: c :: cs) =
      if tag.getLast? = some '/' then (eventsIn fuel opened rest).map (.aside :: ·)
      else
        (eventsIn fuel (tag.takeWhile (fun c => !isGap c) :: opened) rest).map
          (.opening (tag.takeWhile fun c => !isGap c) :: ·) := by
  have slash : c ≠ '/' := by rintro rfl; cases named
  have bang : c ≠ '!' := by rintro rfl; cases named
  have query : c ≠ '?' := by rintro rfl; cases named
  rw [eventsIn, dropGaps_angle]
  split
  · next h => cases h
  · next h => simp at h; exact absurd h.1 bang
  · next h => simp at h; exact absurd h.1 query
  · next h => simp at h; exact absurd h.1 slash
  · next h =>
      obtain ⟨-, rfl⟩ := List.cons.inj h
      simp only [split]
      split <;> rfl
  · next h => grind

theorem eventsIn_text {c : Char} (gaps : dropGaps cs = c :: rest) (plain : c ≠ '<') :
    eventsIn (fuel + 1) opened cs =
      (eventsIn fuel opened ((c :: rest).dropWhile (· ≠ '<'))).map
        (.text (dropLastGaps ((c :: rest).takeWhile (· ≠ '<'))) :: ·) := by
  rw [eventsIn, gaps]
  split
  · next h => cases h
  · next h => simp at h; exact absurd h.1 plain
  · next h => simp at h; exact absurd h.1 plain
  · next h => simp at h; exact absurd h.1 plain
  · next h => simp at h; exact absurd h.1 plain
  · rfl

theorem eventsIn_gaps (gaps : cs.all isGap = true) :
    eventsIn fuel opened (cs ++ rest) = eventsIn fuel opened rest := by
  have same : dropGaps (cs ++ rest) = dropGaps rest :=
    List.dropWhile_append_of_pos (List.all_eq_true.mp gaps)
  cases fuel with
  | zero => rfl
  | succ fuel => rw [eventsIn, eventsIn, same]

theorem eventsIn_cutOff {body : List Char} (split : splitAtAngle cs = (body, rest))
    (last : body.getLast? ≠ some '?') :
    eventsIn (fuel + 1) opened ('<' :: '?' :: cs) = .error cutOff := by
  rw [eventsIn, dropGaps_angle]
  simp only [split, last, decide_false, Bool.and_false, Bool.false_eq_true, if_false]
  rfl

end Step

/-! ## Runs of events -/

variable {opened : List (List Char)} {cs rest : List Char}

/-- That the characters are read with a result, however much more fuel there is than characters. -/
def Reads (opened : List (List Char)) (cs : List Char) (result : Except Flaw (List Event)) : Prop :=
  ∀ fuel, cs.length < fuel → eventsIn fuel opened cs = result

variable {result : Except Flaw (List Event)}

theorem reads_of_step (step : ∀ fuel, cs.length ≤ fuel → eventsIn (fuel + 1) opened cs = result) :
    Reads opened cs result := by
  intro fuel enough
  cases fuel with
  | zero => cases enough
  | succ fuel => exact step fuel (Nat.le_of_lt_succ enough)

theorem reads_nil : Reads opened [] (.ok []) := reads_of_step fun _ _ => rfl

/-- A piece is read in one step if the rest, which is shorter, is read from there. -/
theorem Reads.step {opened' : List (List Char)} {event : Event} (reads : Reads opened' rest result)
    (shorter : rest.length < cs.length)
    (step : ∀ fuel, eventsIn (fuel + 1) opened cs =
      (eventsIn fuel opened' rest).map (event :: ·)) :
    Reads opened cs (result.map (event :: ·)) := by
  refine reads_of_step ?_
  intro fuel enough
  rw [step, reads fuel (by omega)]

theorem Reads.closing (name : Name) (gaps : Gaps) (reads : Reads opened rest result) :
    Reads (name.chars :: opened) (closing name gaps ++ rest)
      (result.map (.closing name.chars :: ·)) := by
  have split : splitAtAngle (name.chars ++ gaps.chars ++ '>' :: rest) =
      (name.chars ++ gaps.chars, rest) := by
    refine splitAtAngle_append ?_
    simp [name.no_angle, gaps.no_angle]
  have named : closingName (name.chars ++ gaps.chars) = name.chars := by
    rw [closingName, dropLastGaps_append gaps name.getLast_not_gap]
    split
    · next none => exact absurd none name.nonempty
    · rfl
  refine reads.step (by simp [Markup.closing]; omega) ?_
  intro fuel
  simpa [Markup.closing] using eventsIn_closing fuel opened split named

theorem Reads.opening (tag : Tag) (reads : Reads (tag.name.chars :: opened) rest result) :
    Reads opened (opening tag ++ rest) (result.map (.opening tag.name.chars :: ·)) := by
  refine reads.step (by simp [Markup.opening]; omega) ?_
  intro fuel
  obtain ⟨c, cs, chars, named⟩ := tag.chars_eq_cons
  have split := tag.passes.split rest
  have name := tag.takeWhile_chars
  have last := tag.getLast?_chars
  rw [chars] at split
  have event := eventsIn_tag fuel opened named split
  rw [← chars, if_neg last, name] at event
  simpa [Markup.opening, chars] using event

/-! ## Asides -/

namespace Aside

theorem reads_empty (tag : Tag) (reads : Reads opened rest result) :
    Reads opened ((empty tag).chars ++ rest) (result.map (.aside :: ·)) := by
  have written : (empty tag).chars = '<' :: tag.chars ++ ['/', '>'] := rfl
  refine reads.step (by simp [written]; omega) ?_
  intro fuel
  obtain ⟨c, cs, chars, named⟩ := tag.chars_eq_cons
  have slash : Passes ['/'] := passes_plain rfl
  have split := (tag.passes.append slash).split rest
  rw [chars] at split
  have event := eventsIn_tag fuel opened named split
  rw [if_pos (by rw [List.getLast?_concat])] at event
  simpa [written, chars] using event

theorem reads_bang (cs rest : List Char) (after : afterBang (cs ++ rest) = .ok rest)
    (reads : Reads opened rest result) :
    Reads opened ('<' :: '!' :: cs ++ rest) (result.map (.aside :: ·)) :=
  reads.step (by simp; omega) fun fuel => eventsIn_bang fuel opened after

theorem reads_instruction (target : Name) {body : List Char} (plain : '>' ∉ body)
    (reads : Reads opened rest result) :
    Reads opened ('<' :: '?' :: (target.chars ++ body ++ ['?', '>']) ++ rest) (result.map (.aside :: ·)) := by
  have split : splitAtAngle (target.chars ++ body ++ ['?'] ++ '>' :: rest) =
      (target.chars ++ body ++ ['?'], rest) := by
    refine splitAtAngle_append ?_
    simp [target.no_angle, plain]
  have long : 2 ≤ (target.chars ++ body ++ ['?']).length := by
    have nonempty := List.length_pos_iff.mpr target.nonempty
    simp only [List.length_append, List.length_singleton]
    omega
  refine reads.step (by simp; omega) ?_
  intro fuel
  simpa using eventsIn_query fuel opened split long (List.getLast?_concat)

theorem reads_cutOff (target : Name) (rest : List Char) {body : List Char} (angle : '>' ∈ body)
    (closed : ¬ ['?', '>'] <:+: body) :
    Reads opened ('<' :: '?' :: (target.chars ++ body ++ ['?', '>']) ++ rest) (.error cutOff) := by
  obtain ⟨front, back, rfl, first⟩ := List.eq_append_cons_of_mem angle
  have split : splitAtAngle (target.chars ++ front ++ '>' :: (back ++ ['?', '>'] ++ rest)) =
      (target.chars ++ front, back ++ ['?', '>'] ++ rest) := by
    refine splitAtAngle_append ?_
    simp [target.no_angle, first]
  refine reads_of_step ?_
  intro fuel _
  have last : (target.chars ++ front).getLast? ≠ some '?' := by
    obtain rfl | ⟨front, c, rfl⟩ := List.eq_nil_or_concat front
    · intro last
      rw [List.append_nil] at last
      have plain := isNameChar_iff.mp (target.isNameChar (List.mem_of_getLast? last))
      simp at plain
    · intro last
      obtain rfl : c = '?' := by simpa using last
      exact closed ⟨front, back, by simp⟩
  simpa using eventsIn_cutOff fuel opened split last

/-- What reading makes of a piece when the rest is read with the result. -/
def onto (aside : Aside) (result : Except Flaw (List Event)) : Except Flaw (List Event) :=
  if aside.endsAtAngle then result.map (.aside :: ·) else .error cutOff

theorem onto_of_ends {aside : Aside} (ends : aside.endsAtAngle = true) :
    aside.onto result = result.map (.aside :: ·) := by
  rw [onto, if_pos ends]

theorem reads (aside : Aside) (reads : Reads opened rest result) :
    Reads opened (aside.chars ++ rest) (aside.onto result) := by
  cases aside with
  | empty tag => exact reads_empty tag reads
  | comment body closed =>
      have after := afterBang_comment rest closed
      have piece := reads_bang (['-', '-'] ++ body ++ ['-', '-', '>']) rest (by simpa using after) reads
      rw [onto_of_ends rfl]
      simpa [chars] using piece
  | instruction target body apart closed =>
      -- A `>` in the body is taken for the end, and the instruction is cut off there.
      by_cases angle : '>' ∈ body
      · have ends : (instruction target body apart closed).endsAtAngle = false := by
          simpa [endsAtAngle] using angle
        rw [onto, ends]
        simpa [chars] using reads_cutOff target rest angle closed
      · have ends : (instruction target body apart closed).endsAtAngle = true := by
          simpa [endsAtAngle] using angle
        rw [onto_of_ends ends]
        simpa [chars] using reads_instruction target angle reads
  | quoted body closed =>
      have after := afterBang_quoted rest closed
      have piece := reads_bang ("[CDATA[".toList ++ body ++ [']', ']', '>']) rest
        (by simpa using after) reads
      rw [onto_of_ends rfl]
      simpa [chars] using piece
  | documentType body named plain =>
      have after := afterBang_documentType rest named plain
      have piece := reads_bang ("DOCTYPE".toList ++ body ++ ['>']) rest (by simpa using after) reads
      rw [onto_of_ends rfl]
      simpa [chars] using piece

end Aside

/-! ## Contents -/

theorem no_angle_of_blank {cs : List Char} (blank : cs.all Text.isBlank = true) : '<' ∉ cs := by
  intro member
  have blank := List.all_eq_true.mp blank _ member
  cases blank

theorem angle_not_mem_escaped (c : Char) : '<' ∉ escaped c := by
  unfold escaped
  split_ifs with ampersand less greater double single
  all_goals simp
  exact Ne.symm less

theorem Entry.plain (entry : Entry) : '<' ∉ entry.chars := by
  simp [Entry.chars, no_angle_of_blank entry.blankBefore, no_angle_of_blank entry.blankAfter,
    angle_not_mem_escaped]

theorem reads_text {text : List Char} (plain : '<' ∉ text)
    (next : ∀ c ∈ rest.head?, c = '<') (reads : Reads opened rest result) :
    Reads opened (text ++ rest) (result.map (textEvents text ++ ·)) := by
  unfold textEvents
  -- Gaps alone are passed over. Else the text begins at the first character that is no gap.
  split
  · next none =>
      simp only [List.nil_append]
      rw [except_map_id]
      have gaps : text.all isGap = true := List.all_eq_true.mpr (List.dropWhile_eq_nil_iff.mp none)
      intro fuel enough
      rw [eventsIn_gaps fuel opened gaps]
      refine reads fuel ?_
      rw [List.length_append] at enough
      omega
  · next some =>
      obtain ⟨c, cs, shown⟩ := List.exists_cons_of_ne_nil some
      have within : c :: cs <:+ text := shown ▸ List.dropWhile_suffix _
      have plain : (c :: cs).all (· ≠ '<') = true := by
        rw [List.all_eq_true]
        rintro other member
        rw [decide_eq_true_eq]
        rintro rfl
        exact plain (within.subset member)
      have stop : ∀ c ∈ rest.head?, (decide (c ≠ '<')) = false := by simpa using next
      have gaps : dropGaps (text ++ rest) = c :: (cs ++ rest) := by
        rw [dropGaps, List.dropWhile_append, ← dropGaps, shown]
        rfl
      rw [shown]
      refine reads.step ?_ ?_
      · have longer := within.length_le
        rw [List.length_append]
        simp only [List.length_cons] at longer
        omega
      · intro fuel
        have angle : c ≠ '<' := by simpa using List.all_eq_true.mp plain c (by simp)
        rw [eventsIn_text fuel opened gaps angle, ← List.cons_append,
          Text.takeWhile_append_of_all plain stop,
          Text.dropWhile_append_of_all plain stop]

namespace Content

def onto (content : Content) (result : Except Flaw (List Event)) : Except Flaw (List Event) :=
  if content.endsAtAngle then result.map (content.events ++ ·) else .error cutOff

theorem onto_beside (text : Run) (aside : Aside) (rest : Content) :
    (beside text aside rest).onto result =
      (aside.onto (rest.onto result)).map (textEvents text.chars ++ ·) := by
  unfold onto Aside.onto
  cases asideEnds : aside.endsAtAngle <;> cases restEnds : rest.endsAtAngle <;> cases result <;>
    simp [endsAtAngle, Content.events, asideEnds, restEnds, Except.map]

theorem onto_element (text : Run) (tag : Tag) (other : tag.name.chars ≠ versionName.chars)
    (inside : Content) (gaps : Gaps) (rest : Content) :
    (element text tag other inside gaps rest).onto result =
      ((inside.onto ((rest.onto result).map (.closing tag.name.chars :: ·))).map
        (.opening tag.name.chars :: ·)).map (textEvents text.chars ++ ·) := by
  unfold onto
  cases insideEnds : inside.endsAtAngle <;> cases restEnds : rest.endsAtAngle <;> cases result <;>
    simp [endsAtAngle, Content.events, insideEnds, restEnds, Except.map]

theorem onto_version (text : Run) (attributes : List Attribute) (gaps : Gaps) (entry : Entry)
    (closingGaps : Gaps) (rest : Content) :
    (version text attributes gaps entry closingGaps rest).onto result =
      ((((rest.onto result).map (.closing versionName.chars :: ·)).map
        (textEvents entry.chars ++ ·)).map (.opening versionName.chars :: ·)).map
          (textEvents text.chars ++ ·) := by
  unfold onto
  cases restEnds : rest.endsAtAngle <;> cases result <;>
    simp [endsAtAngle, Content.events, restEnds, Except.map]

theorem reads (content : Content) (next : ∀ c ∈ rest.head?, c = '<')
    (reads : Reads opened rest result) :
    Reads opened (content.chars ++ rest) (content.onto result) := by
  induction content generalizing opened rest result with
  | last text => exact reads_text text.plain next reads
  | beside text aside after ih =>
      have later := aside.reads (ih next reads)
      have first : ∀ c ∈ (aside.chars ++ (after.chars ++ rest)).head?, c = '<' := by
        cases aside <;> simp [Aside.chars]
      rw [onto_beside]
      simpa [chars] using reads_text text.plain first later
  | element text tag other inside gaps after ihInside ihAfter =>
      have closes := Reads.closing tag.name gaps (ihAfter next reads)
      have holds := ihInside (by simp [closing]) closes
      have opens := Reads.opening tag holds
      rw [onto_element]
      simpa [chars] using reads_text text.plain (by simp [opening]) opens
  | version text attributes gaps entry closingGaps after ih =>
      have closes := Reads.closing versionName closingGaps (ih next reads)
      have holds := reads_text entry.plain (by simp [closing]) closes
      have opens := Reads.opening ⟨versionName, attributes, gaps⟩ holds
      rw [onto_version]
      simpa [chars] using reads_text text.plain (by simp [opening]) opens

end Content

theorem Document.events_chars (document : Document) :
    Markup.events document.chars = document.content.onto (.ok []) := by
  have reads : Reads [] document.content.chars (document.content.onto (.ok [])) := by
    have nothing : Reads [] [] (.ok []) := reads_nil
    simpa using document.content.reads (by simp) nothing
  have whole := reads (document.content.chars.length + 1) (by omega)
  unfold Markup.events chars
  cases document.marked with
  | true => exact whole
  | false =>
      simp only [Bool.false_eq_true, if_false]
      split
      · next marked => exact absurd (by rw [marked]; rfl) document.unmarked
      · exact whole

end Cookbook.Markup
