import Cookbook.Proofs.Release
import Cookbook.Proofs.Text.Decimal

/-!
# Spellings of releases

A text that is read as a release spells the release's three numbers and, for a numbered preview, a
fourth (`Release.exists_spelling`). A release is written in one of its spellings, the canonical one
(`Release.text_eq_iff`), and reading that one back gives the release again. Releases whose texts are the
same differ at most in a number that the texts leave out (`Release.text_decides`).
-/

namespace Cookbook

/-! ## Taking texts apart -/

theorem Stage.tag?_of_ofTag? {tag : List Char} {stage : Stage} (named : ofTag? tag = some stage) :
    stage.tag? = some (String.ofList tag) := by
  have found := List.find?_some named
  simp only [Option.any_eq_true, decide_eq_true_eq] at found
  obtain ⟨word, has, rfl⟩ := found
  rw [has, String.ofList_toList]

theorem Stage.tag?_eq_none {stage : Stage} : stage.tag? = none ↔ stage = .final := by
  cases stage <;> simp [tag?]

namespace Release

theorem append_of_splitDash {cs front : List Char} {suffix : Option (List Char)}
    (split : splitDash cs = (front, suffix)) :
    cs = front ++ (suffix.map ('-' :: ·)).getD [] := by
  have whole := List.takeWhile_append_dropWhile (p := (· ≠ '-')) (l := cs)
  unfold splitDash at split
  split at split
  next none_ =>
    obtain ⟨rfl, rfl⟩ := Prod.mk.inj split
    rw [Option.map_none, Option.getD_none, List.append_nil]
  next c back found =>
    obtain ⟨rfl, rfl⟩ := Prod.mk.inj split
    have dash := List.head?_dropWhile_not (· ≠ '-') cs
    rw [found, List.head?_cons] at dash
    simp only [ne_eq, decide_not, Bool.not_eq_false', decide_eq_true_eq] at dash
    rw [found, dash] at whole
    exact whole.symm

end Release

/-! ## Spellings -/

/-- The runs of digits that a release's text is made of, with the stage that its tag names. -/
@[ext]
structure Spelling where
  major : List Char
  minor : List Char
  micro : List Char
  stage : Stage
  /-- Empty for final releases and development builds. -/
  number : List Char
deriving DecidableEq

namespace Spelling

/-- What follows the three numbers: nothing in a final release. -/
def ending (spelling : Spelling) : List Char :=
  match spelling.stage.tag? with
  | none => []
  | some tag => '-' :: (tag.toList ++ spelling.number)

def chars (spelling : Spelling) : List Char :=
  spelling.major ++ '.' :: (spelling.minor ++ '.' :: (spelling.micro ++ spelling.ending))

def text (spelling : Spelling) : String := String.ofList spelling.chars

/-- That the runs of digits stand for a release's numbers. -/
structure Spells (spelling : Spelling) (release : Release) : Prop where
  major : Text.word? spelling.major = some release.major
  minor : Text.word? spelling.minor = some release.minor
  micro : Text.word? spelling.micro = some release.micro
  stage : spelling.stage = release.stage
  numbered : release.stage ≠ .final ∧ release.stage ≠ .dev →
    Text.word? spelling.number = some release.number
  unnumbered : release.stage = .final ∨ release.stage = .dev →
    spelling.number = [] ∧ release.number = 0

theorem Spells.regular {spelling : Spelling} {release : Release} (spells : spelling.Spells release) :
    release.Regular :=
  fun unnumbered => (spells.unnumbered unnumbered).2

end Spelling

namespace Release

theorem preview?_eq_some {cs : List Char} {stage : Stage} {number : UInt32}
    (read : preview? cs = some (stage, number)) :
    ∃ tag digits, stage.tag? = some tag ∧ cs = tag.toList ++ digits ∧
      (stage ≠ .dev → Text.word? digits = some number) ∧
      (stage = .dev → digits = [] ∧ number = 0) := by
  have whole := List.takeWhile_append_dropWhile (p := Char.isLower) (l := cs)
  unfold preview? at read
  simp only [Option.bind_eq_bind, Option.bind_eq_some_iff] at read
  obtain ⟨named, tagged, read⟩ := read
  have tag := Stage.tag?_of_ofTag? tagged
  split at read
  next bare =>
    cases read
    exact ⟨_, [], tag, by rw [String.toList_ofList, ← bare, whole], by simp, fun _ => ⟨rfl, rfl⟩⟩
  next => cases read
  next plain _ =>
    simp only [Option.bind_eq_some_iff] at read
    obtain ⟨value, numbered, made⟩ := read
    cases made
    exact ⟨_, _, tag, by rw [String.toList_ofList, whole], fun _ => numbered,
      fun dev => (plain dev).elim⟩

theorem exists_spelling {s : String} {release : Release} (read : parse? s = some release) :
    ∃ spelling : Spelling, spelling.text = s ∧ spelling.Spells release := by
  obtain ⟨major, minor, micro, fields, major_, minor_, micro_, ending⟩ := parseChars?_eq_some read
  rcases split : splitDash s.toList with ⟨core, suffix⟩
  have whole := append_of_splitDash split
  simp only [split] at fields ending
  obtain ⟨_, rfl, others⟩ := Text.eq_append_of_fields fields
  obtain ⟨_, rfl, last⟩ := Text.eq_append_of_fields others
  obtain rfl := (Text.eq_of_fields last).symm
  obtain ⟨_, _, _, stage, number⟩ := release
  cases suffix with
  | none =>
      cases ending
      refine ⟨⟨major, minor, micro, .final, []⟩, ?_, major_, minor_, micro_, rfl, by simp,
        fun _ => ⟨rfl, rfl⟩⟩
      rw [Spelling.text, ← s.ofList_toList, whole]
      simp [Spelling.chars, Spelling.ending, Stage.tag?]
  | some suffix =>
      obtain ⟨tag, digits, named, rfl, numbered, bare⟩ := preview?_eq_some ending
      refine ⟨⟨major, minor, micro, stage, digits⟩, ?_, major_, minor_, micro_, rfl,
        fun other => numbered other.2, ?_⟩
      · rw [Spelling.text, ← s.ofList_toList, whole]
        simp [Spelling.chars, Spelling.ending, named]
      · rintro (rfl | dev)
        · cases named
        · exact bare dev

end Release

/-! ## The canonical spelling -/

namespace Spelling

theorem eq_of_text_eq {spelling other : Spelling} {release : Release}
    (spells : spelling.Spells release) (spellsOther : other.Spells release)
    (same : spelling.text = other.text) : spelling = other := by
  have noDot {cs : List Char} {n : UInt32} (read : Text.word? cs = some n) : '.' ∉ cs :=
    Text.notMem_of_word? (by decide) read
  have noDash {cs : List Char} {n : UInt32} (read : Text.word? cs = some n) : '-' ∉ cs :=
    Text.notMem_of_word? (by decide) read
  have same : spelling.chars = other.chars := String.ofList_injective same
  -- No number holds a dot or a dash, so both texts are cut at the same places.
  obtain ⟨majors, same⟩ := Text.append_cons_inj (noDot spells.major) (noDot spellsOther.major) same
  obtain ⟨minors, same⟩ := Text.append_cons_inj (noDot spells.minor) (noDot spellsOther.minor) same
  have stages : spelling.stage = other.stage := spells.stage.trans spellsOther.stage.symm
  have ends : spelling.micro = other.micro ∧ spelling.number = other.number := by
    unfold ending at same
    rw [← stages] at same
    cases tag : spelling.stage.tag? with
    | none =>
        have final : release.stage = .final := spells.stage ▸ Stage.tag?_eq_none.mp tag
        simp only [tag, List.append_nil] at same
        exact ⟨same, (spells.unnumbered (.inl final)).1.trans (spellsOther.unnumbered (.inl final)).1.symm⟩
    | some tag_ =>
        simp only [tag] at same
        obtain ⟨micros, same⟩ :=
          Text.append_cons_inj (noDash spells.micro) (noDash spellsOther.micro) same
        exact ⟨micros, List.append_cancel_left same⟩
  cases spelling
  cases other
  simp_all

end Spelling

namespace Release

/-- How many digits the number of a preview has at least: two from 3.1.0 on, but one for the betas of
3.1.0 itself and for the later releases of its line. -/
def leastDigits (release : Release) : Nat :=
  if 3 < release.major ∨ release.major = 3 ∧ 1 ≤ release.minor then
    if release.line = ⟨3, 1⟩ ∧ (release.stage = .beta ∨ 0 < release.micro) then 1 else 2
  else 1

theorem leastDigits_eq (release : Release) :
    release.leastDigits = if release.padsNumber then 2 else 1 := by
  obtain ⟨major, minor, micro, stage, number⟩ := release
  have zero : (0 : UInt32).toNat = 0 := rfl
  have one : (1 : UInt32).toNat = 1 := rfl
  have three : (3 : UInt32).toNat = 3 := rfl
  simp only [leastDigits, padsNumber, line, ReleaseLine.mk.injEq, Bool.or_eq_true,
    decide_eq_true_eq, Bool.and_eq_true, UInt32.lt_iff_toNat_lt, UInt32.le_iff_toNat_le,
    ← UInt32.toNat_inj, zero, one, three]
  by_cases beta : stage = .beta
  all_goals
    simp only [beta, ne_eq, not_true_eq_false, not_false_eq_true, and_false, and_true, true_or,
      false_or, or_false]
    split_ifs <;> first | rfl | omega

theorem leastDigits_pos (release : Release) : 0 < release.leastDigits := by
  rw [leastDigits_eq]
  split <;> decide

theorem numberChars_eq (release : Release) :
    release.numberChars = List.leftpad release.leastDigits '0' (Text.digits release.number) := by
  have some_ : 1 ≤ (Text.digits release.number).length := Nat.length_toDigits_pos
  have short : (Text.digits release.number).length ≤ 1 ↔ release.number < 10 := by
    rw [UInt32.lt_iff_toNat_lt]
    exact Nat.length_toDigits_le_iff (by decide) (by decide)
  rw [numberChars, leastDigits_eq, List.leftpad]
  cases release.padsNumber with
  | false => simp [Nat.sub_eq_zero_of_le some_]
  | true =>
      by_cases small : release.number < 10
      · have single : (Text.digits release.number).length = 1 :=
          Nat.le_antisymm (short.mpr small) some_
        simp [small, single]
      · have long : 2 ≤ (Text.digits release.number).length := by
          rw [← short] at small
          omega
        simp [small, Nat.sub_eq_zero_of_le long]

/-- How the release is written. -/
def spelling (release : Release) : Spelling where
  major := Text.digits release.major
  minor := Text.digits release.minor
  micro := Text.digits release.micro
  stage := release.stage
  number := match release.stage with
    | .final | .dev => []
    | .alpha | .beta | .rc => release.numberChars

theorem text_spelling (release : Release) : release.spelling.text = release.text := by
  obtain ⟨major, minor, micro, stage, number⟩ := release
  cases stage <;>
    simp [Spelling.text, Spelling.chars, Spelling.ending, spelling, text, chars, Stage.tag?]

theorem spells_spelling {release : Release} (regular : release.Regular) :
    release.spelling.Spells release where
  major := Text.word?_digits _
  minor := Text.word?_digits _
  micro := Text.word?_digits _
  stage := rfl
  numbered := by
    rintro ⟨notFinal, notDev⟩
    unfold spelling
    cases stage : release.stage <;> simp_all [word?_numberChars]
  unnumbered := by
    intro unnumbered
    refine ⟨?_, regular unnumbered⟩
    obtain final | dev := unnumbered
    · simp [spelling, final]
    · simp [spelling, dev]

end Release

/-- That a release is spelled without a zero in front of any number, but for those that fill the number
of a preview to the digits it has at least. -/
@[mk_iff]
structure Spelling.Canonical (spelling : Spelling) (release : Release) : Prop where
  major : Text.Padded 1 spelling.major
  minor : Text.Padded 1 spelling.minor
  micro : Text.Padded 1 spelling.micro
  number : release.stage ≠ .final ∧ release.stage ≠ .dev →
    Text.Padded release.leastDigits spelling.number

theorem Release.number_spelling_eq_iff {spelling : Spelling} {release : Release}
    (spells : spelling.Spells release) : release.spelling.number = spelling.number ↔
      (release.stage ≠ .final ∧ release.stage ≠ .dev →
        Text.Padded release.leastDigits spelling.number) := by
  have bare := spells.unnumbered
  have padded (numbered : release.stage ≠ .final ∧ release.stage ≠ .dev) :
      release.numberChars = spelling.number ↔ Text.Padded release.leastDigits spelling.number := by
    rw [numberChars_eq]
    exact Text.leftpad_digits_eq_iff release.leastDigits_pos (spells.numbered numbered)
  unfold Release.spelling
  cases stage : release.stage <;> simp_all

theorem Release.spelling_eq_iff {spelling : Spelling} {release : Release}
    (spells : spelling.Spells release) : release.spelling = spelling ↔ spelling.Canonical release := by
  have stages : release.spelling.stage = spelling.stage := spells.stage.symm
  rw [Spelling.ext_iff, Spelling.canonical_iff, ← Text.digits_eq_iff spells.major,
    ← Text.digits_eq_iff spells.minor, ← Text.digits_eq_iff spells.micro,
    ← number_spelling_eq_iff spells, and_iff_right stages]
  rfl

/-- The text of a release is the canonical one of its spellings. -/
theorem Release.text_eq_iff {spelling : Spelling} {release : Release}
    (spells : spelling.Spells release) : release.text = spelling.text ↔ spelling.Canonical release := by
  rw [← spelling_eq_iff spells, ← text_spelling]
  constructor
  · exact Spelling.eq_of_text_eq (spells_spelling spells.regular) spells
  · intro same
    rw [same]

/-! ## Round trips -/

namespace Release

/-- A release is read back from its text as it was. A text that is read as a release is written anew as
the canonical spelling of what it spells, which is read as that release again, and is the text itself
exactly when that was spelled so. -/
theorem text_roundTrips :
    (∀ release : Release, release.Regular → parse? release.text = some release) ∧
    ∀ (s : String) (release : Release), parse? s = some release →
      parse? release.text = some release ∧
      (parse? release.text).map text = some release.text ∧
      ∃ spelling : Spelling, spelling.text = s ∧ spelling.Spells release ∧
        (release.text = s ↔ spelling.Canonical release) := by
  have reread (release : Release) (regular : release.Regular) :
      parse? release.text = some release := by
    rw [parse?_text, shown_of_regular regular]
  refine ⟨reread, ?_⟩
  intro s release read
  obtain ⟨spelling, rfl, spells⟩ := exists_spelling read
  have again := reread release spells.regular
  exact ⟨again, by rw [again, Option.map_some], spelling, rfl, spells, text_eq_iff spells⟩

theorem text_roundTrips_padded :
    Regular ⟨3, 1, 0, .beta, 1⟩ ∧
    parse? (text ⟨3, 1, 0, .beta, 1⟩) = some ⟨3, 1, 0, .beta, 1⟩ ∧
    parse? "8.02.0-beta002" = some ⟨8, 2, 0, .beta, 2⟩ ∧
    text ⟨8, 2, 0, .beta, 2⟩ = "8.2.0-beta02" ∧
    parse? "8.2.0-beta02" = some ⟨8, 2, 0, .beta, 2⟩ ∧
    ∃ spelling : Spelling, spelling.text = "8.02.0-beta002" ∧
      spelling.Spells ⟨8, 2, 0, .beta, 2⟩ ∧ ¬ spelling.Canonical ⟨8, 2, 0, .beta, 2⟩ := by
  have read : parse? "8.02.0-beta002" = some ⟨8, 2, 0, .beta, 2⟩ := by decide
  have written : text ⟨8, 2, 0, .beta, 2⟩ = "8.2.0-beta02" := by decide
  obtain ⟨again, -, spelling, spelled, spells, same⟩ := text_roundTrips.2 _ _ read
  rw [written] at again same
  refine ⟨by decide, text_roundTrips.1 _ (by decide), read, written, again, spelling, spelled, spells, ?_⟩
  exact fun canonical => absurd (same.mpr canonical) (by decide)

/-! ## Releases of the same text -/

theorem regular_of_parse? {s : String} {release : Release} (read : parse? s = some release) :
    release.Regular := by
  obtain ⟨_, -, spells⟩ := exists_spelling read
  exact spells.regular

/-- A text shows no more of a release than reading it brings back. -/
theorem text_shown (release : Release) : release.shown.text = release.text := by
  obtain ⟨major, minor, micro, stage, number⟩ := release
  cases stage <;> rfl

theorem text_eq_text_iff {release other : Release} :
    release.text = other.text ↔ release.shown = other.shown := by
  constructor
  · intro same
    have read := parse?_text release
    rw [same, parse?_text other] at read
    exact (Option.some_inj.mp read).symm
  · intro same
    rw [← text_shown release, same, text_shown]

theorem shown_eq_shown_iff {release other : Release} : release.shown = other.shown ↔
    release = other ∨ ((release.stage = .final ∨ release.stage = .dev) ∧
      other = { release with number := other.number }) := by
  obtain ⟨major, minor, micro, stage, number⟩ := release
  obtain ⟨major', minor', micro', stage', number'⟩ := other
  cases stage <;> cases stage' <;> grind [shown]

/-- Releases compare as equal just if they are the same, and releases of the same text are the same but
for the number of a final release or of a development build, which the text leaves out. So texts decide
between releases where these have the number zero, as all have that are read from a text. -/
theorem text_decides (release other : Release) :
    (compare release other = .eq ↔ release = other) ∧
    (release.text = other.text ↔ compare release other = .eq ∨
      ((release.stage = .final ∨ release.stage = .dev) ∧
        other = { release with number := other.number })) ∧
    (release.Regular → other.Regular → (release.text = other.text ↔ compare release other = .eq)) ∧
    ∀ s, parse? s = some release → release.Regular := by
  have compared : compare release other = .eq ↔ release = other := Std.LawfulEqOrd.compare_eq_iff_eq
  refine ⟨compared, ?_, ?_, fun _ => regular_of_parse?⟩
  · rw [text_eq_text_iff, shown_eq_shown_iff, compared]
  · intro regular regularOther
    rw [text_eq_text_iff, shown_of_regular regular, shown_of_regular regularOther, compared]

theorem text_decides_numberedFinal :
    parse? "8.01.0-rc2" = some ⟨8, 1, 0, .rc, 2⟩ ∧
    Regular ⟨8, 1, 0, .rc, 2⟩ ∧ Regular ⟨8, 1, 0, .final, 0⟩ ∧
    text ⟨8, 1, 0, .rc, 2⟩ ≠ text ⟨8, 1, 0, .final, 0⟩ ∧
    text ⟨8, 1, 0, .final, 5⟩ = text ⟨8, 1, 0, .final, 0⟩ := by
  obtain ⟨-, -, decided, regular⟩ := text_decides ⟨8, 1, 0, .rc, 2⟩ ⟨8, 1, 0, .final, 0⟩
  obtain ⟨-, sameText, -⟩ := text_decides ⟨8, 1, 0, .final, 5⟩ ⟨8, 1, 0, .final, 0⟩
  have read : parse? "8.01.0-rc2" = some ⟨8, 1, 0, .rc, 2⟩ := by decide
  have preview := regular _ read
  have final : Regular ⟨8, 1, 0, .final, 0⟩ := by decide
  refine ⟨read, preview, final, ?_, sameText.mpr (.inr ⟨.inl rfl, rfl⟩)⟩
  rw [ne_eq, decided preview final]
  decide

theorem text_decides_fails : ¬ ∀ release other : Release,
    (release.text = other.text ↔ compare release other = .eq) ∧
    (compare release other = .eq ↔ release = other) := by
  intro decides
  have numbered := (decides ⟨8, 1, 0, .final, 5⟩ ⟨8, 1, 0, .final, 0⟩).1
  exact absurd (numbered.mp (by decide)) (by decide)

end Release

end Cookbook
