import Cookbook.Proofs.Spelling

/-!
# The grammar of releases and lines

`Release.read_grammar`: exactly the texts of the form `N.N.N`, `N.N.N-dev` and `N.N.N-KN` are read as
releases, and those of the form `N.N` as lines, where each `N` is a run of ASCII digits that fits in 32
bits. It does not matter that texts may be matched with a pattern that takes further characters for
decimal digits before the runs are converted (`Text.ReadsBy`): such runs stand for no number.
-/

namespace Cookbook

/-! ## Forms -/

/-- That a text is a run of ASCII digits, which stand for the number. -/
structure Text.Numeral (text : String) (n : UInt32) : Prop where
  nonempty : text ≠ ""
  digits : ∀ c ∈ text.toList, '0' ≤ c ∧ c ≤ '9'
  value : Nat.ofDigitChars 10 text.toList 0 = n.toNat

theorem Text.numeral_iff {text : String} {n : UInt32} : Numeral text n ↔ word? text.toList = some n := by
  have isDigit (c : Char) : c.isDigit = true ↔ '0' ≤ c ∧ c ≤ '9' := by
    simp [Char.isDigit, Char.le_def]
  have empty : text ≠ "" ↔ text.toList ≠ [] := not_congr String.toList_eq_nil_iff.symm
  rw [word?_eq_some, ← empty]
  simp only [isDigit]
  exact ⟨fun ⟨nonempty, digits, value⟩ => ⟨nonempty, digits, value⟩,
    fun ⟨nonempty, digits, value⟩ => ⟨nonempty, digits, value⟩⟩

open Text (Numeral)

/-- The tags of the previews that are numbered. -/
def Stage.numberedTags : List (String × Stage) := [("alpha", alpha), ("beta", beta), ("rc", rc)]

/-- That a text has one of the forms of releases and names the release. -/
inductive Release.Denotes : String → Release → Prop
  | final {a b c : String} {major minor micro : UInt32} (first : Numeral a major)
      (second : Numeral b minor) (third : Numeral c micro) :
      Denotes (a ++ "." ++ b ++ "." ++ c) ⟨major, minor, micro, .final, 0⟩
  | dev {a b c : String} {major minor micro : UInt32} (first : Numeral a major)
      (second : Numeral b minor) (third : Numeral c micro) :
      Denotes (a ++ "." ++ b ++ "." ++ c ++ "-dev") ⟨major, minor, micro, .dev, 0⟩
  | numbered {a b c d tag : String} {major minor micro number : UInt32} {stage : Stage}
      (first : Numeral a major) (second : Numeral b minor) (third : Numeral c micro)
      (tagged : (tag, stage) ∈ Stage.numberedTags) (fourth : Numeral d number) :
      Denotes (a ++ "." ++ b ++ "." ++ c ++ "-" ++ tag ++ d) ⟨major, minor, micro, stage, number⟩

/-- That a text has the form of lines and names the line. -/
inductive ReleaseLine.Denotes : String → ReleaseLine → Prop
  | intro {a b : String} {major minor : UInt32} (first : Numeral a major) (second : Numeral b minor) :
      Denotes (a ++ "." ++ b) ⟨major, minor⟩

/-! ## Patterns -/

/-- That a class of characters may be what a pattern takes for decimal digits. -/
structure Text.IsDecimal (decimal : Char → Bool) : Prop where
  ascii : ∀ c, c.isDigit = true → decimal c = true
  dot : decimal '.' = false
  dash : decimal '-' = false
  letters : ∀ c, c.isLower = true → decimal c = false

/-- That a text is a run of characters of a class. -/
def Text.IsRun (kind : Char → Bool) (text : String) : Prop :=
  text ≠ "" ∧ text.toList.all kind = true

instance (kind : Char → Bool) (text : String) : Decidable (Text.IsRun kind text) :=
  inferInstanceAs (Decidable (_ ∧ _))

/-- That a text which is matched with a pattern, and converted if it matches, is read so. -/
inductive Text.ReadsBy {Capture Value : Type} (fits : Capture → Prop)
    (convert : Capture → Option Value) : Option Value → Prop
  | captured {capture : Capture} (found : fits capture) : ReadsBy fits convert (convert capture)
  | unmatched (none_ : ∀ capture, ¬ fits capture) : ReadsBy fits convert none

theorem Text.readsBy_iff {Capture Value : Type} {fits : Capture → Prop}
    {convert : Capture → Option Value} {read : Option Value}
    (agree : ∀ capture, fits capture → convert capture = read)
    (found : ∀ value, read = some value → ∃ capture, fits capture) (result : Option Value) :
    ReadsBy fits convert result ↔ result = read := by
  constructor
  · rintro (⟨found⟩ | ⟨unmatched⟩)
    · exact agree _ found
    · cases read with
      | none => rfl
      | some value =>
          obtain ⟨capture, matched⟩ := found value rfl
          exact absurd matched (unmatched capture)
  · rintro rfl
    by_cases some_ : ∃ capture, fits capture
    · obtain ⟨capture, matched⟩ := some_
      rw [← agree capture matched]
      exact .captured matched
    · have none_ : result = none := by
        cases result with
        | none => rfl
        | some value => exact absurd (found value rfl) some_
      rw [none_]
      exact .unmatched (not_exists.mp some_)

/-- What the pattern of releases finds in a text. -/
structure Release.Capture where
  major : String
  minor : String
  micro : String
  /-- The tag after a dash, and what follows it. -/
  preview : Option (String × String)

namespace Release.Capture

def ending (capture : Capture) : String :=
  match capture.preview with
  | none => ""
  | some (tag, number) => "-" ++ tag ++ number

/-- That the text is matched by the pattern of releases, with what it captures. -/
structure Matches (decimal : Char → Bool) (text : String) (capture : Capture) : Prop where
  whole : text = capture.major ++ "." ++ capture.minor ++ "." ++ capture.micro ++ capture.ending
  major : Text.IsRun decimal capture.major
  minor : Text.IsRun decimal capture.minor
  micro : Text.IsRun decimal capture.micro
  preview : ∀ tag number, capture.preview = some (tag, number) →
    Text.IsRun Char.isLower tag ∧ number.toList.all decimal = true

/-- The stage of a tag, with its number: every stage has one but `dev`. -/
def preview? (tag number : String) : Option (Stage × UInt32) := do
  let stage ← Stage.ofTag? tag.toList
  match stage, number.toList.isEmpty with
  | .dev, true => some (.dev, 0)
  | .dev, false | _, true => none
  | stage, false => return (stage, ← Text.word? number.toList)

def release? (capture : Capture) : Option Release := do
  let (stage, number) ← match capture.preview with
    | none => some (.final, 0)
    | some (tag, number) => preview? tag number
  return ⟨← Text.word? capture.major.toList, ← Text.word? capture.minor.toList,
    ← Text.word? capture.micro.toList, stage, number⟩

end Release.Capture

namespace ReleaseLine

/-- That the text is matched by the pattern of lines, with what it captures. -/
structure Matches (decimal : Char → Bool) (text : String) (capture : String × String) : Prop where
  whole : text = capture.1 ++ "." ++ capture.2
  major : Text.IsRun decimal capture.1
  minor : Text.IsRun decimal capture.2

def ofCapture? (capture : String × String) : Option ReleaseLine := do
  return ⟨← Text.word? capture.1.toList, ← Text.word? capture.2.toList⟩

end ReleaseLine

/-! ## What patterns capture -/

section Matching

variable {decimal : Char → Bool} {text : String}

theorem Text.isDecimal_isDigit : IsDecimal Char.isDigit where
  ascii _ digit := digit
  dot := rfl
  dash := rfl
  letters c lower := by
    rw [Bool.eq_false_iff]
    intro digit
    rw [Release.not_isLower_of_isDigit digit] at lower
    cases lower

theorem Text.IsRun.notMem {kind : Char → Bool} {c : Char} (run : IsRun kind text)
    (other : kind c = false) : c ∉ text.toList := by
  intro member
  rw [List.all_eq_true.mp run.2 c member] at other
  cases other

theorem Text.Numeral.isRun {n : UInt32} (isDecimal : IsDecimal decimal) (numeral : Numeral text n) :
    IsRun decimal text :=
  ⟨numeral.nonempty, List.all_eq_true.mpr fun c member =>
    isDecimal.ascii c (isDigit_of_word? (numeral_iff.mp numeral) c member)⟩

namespace Release.Capture

variable {capture : Capture}

theorem preview?_eq {tag number : String} (isDecimal : Text.IsDecimal decimal)
    (lower : Text.IsRun Char.isLower tag) (decimals : number.toList.all decimal = true) :
    Release.preview? (tag.toList ++ number.toList) = preview? tag number := by
  have stop : ∀ c ∈ number.toList.head?, c.isLower = false := by
    intro c first
    rw [Bool.eq_false_iff]
    intro letter
    have other := isDecimal.letters c letter
    rw [List.all_eq_true.mp decimals c (List.mem_of_mem_head? first)] at other
    cases other
  rw [preview?_tagged lower.2 stop, preview?]
  cases Stage.ofTag? tag.toList with
  | none => rfl
  | some stage => cases number.toList <;> cases stage <;> rfl

/-- Reading comes to the same as converting what the pattern captures. -/
theorem Matches.release?_eq (isDecimal : Text.IsDecimal decimal) (matched : capture.Matches decimal text) :
    capture.release? = parse? text := by
  obtain ⟨major, minor, micro, preview⟩ := capture
  obtain ⟨rfl, majors, minors, micros, previews⟩ := matched
  have fields : Text.fields '.' (major.toList ++ '.' :: (minor.toList ++ '.' :: micro.toList)) =
      [major.toList, minor.toList, micro.toList] := by
    rw [Text.fields_append, Text.fields_append, Text.fields_of_notMem (majors.notMem isDecimal.dot),
      Text.fields_of_notMem (minors.notMem isDecimal.dot),
      Text.fields_of_notMem (micros.notMem isDecimal.dot)]
    rfl
  have noDash : '-' ∉ major.toList ++ '.' :: (minor.toList ++ '.' :: micro.toList) := by
    simp [majors.notMem isDecimal.dash, minors.notMem isDecimal.dash, micros.notMem isDecimal.dash]
  -- Up to the dash the captured parts are the fields that reading finds.
  cases preview with
  | none =>
      have whole : (major ++ "." ++ minor ++ "." ++ micro ++ "").toList =
          major.toList ++ '.' :: (minor.toList ++ '.' :: micro.toList) := by simp
      unfold parse? parseChars? release?
      simp only [ending]
      rw [whole, splitDash_of_notMem noDash]
      simp only [fields]
  | some tagged =>
      obtain ⟨tag, number⟩ := tagged
      obtain ⟨lower, decimals⟩ := previews tag number rfl
      have whole : (major ++ "." ++ minor ++ "." ++ micro ++ ("-" ++ tag ++ number)).toList =
          (major.toList ++ '.' :: (minor.toList ++ '.' :: micro.toList)) ++
            '-' :: (tag.toList ++ number.toList) := by simp
      unfold parse? parseChars? release?
      simp only [ending]
      rw [whole, splitDash_append noDash]
      simp only [fields, preview?_eq isDecimal lower decimals]

end Release.Capture

theorem ReleaseLine.Matches.ofCapture?_eq {capture : String × String} (isDecimal : Text.IsDecimal decimal)
    (matched : Matches decimal text capture) : ofCapture? capture = parse? text := by
  obtain ⟨major, minor⟩ := capture
  obtain ⟨rfl, majors, minors⟩ := matched
  have fields : Text.fields '.' (major ++ "." ++ minor).toList = [major.toList, minor.toList] := by
    have whole : (major ++ "." ++ minor).toList = major.toList ++ '.' :: minor.toList := by simp
    rw [whole, Text.fields_append, Text.fields_of_notMem (majors.notMem isDecimal.dot),
      Text.fields_of_notMem (minors.notMem isDecimal.dot)]
    rfl
  unfold parse? ofCapture?
  simp only [fields]

end Matching

/-! ## What is read -/

theorem Stage.ofTag?_numberedTags : ∀ pair ∈ numberedTags,
    ofTag? pair.1.toList = some pair.2 ∧ pair.2 ≠ .dev ∧ Text.IsRun Char.isLower pair.1 := by
  decide

theorem Stage.cases_tag (stage : Stage) : stage = .final ∨ stage = .dev ∨ ∃ tag,
    (tag, stage) ∈ numberedTags ∧ stage.tag? = some tag ∧ stage ≠ .final ∧ stage ≠ .dev := by
  cases stage with
  | final => exact .inl rfl
  | dev => exact .inr (.inl rfl)
  | alpha => exact .inr (.inr ⟨"alpha", by decide⟩)
  | beta => exact .inr (.inr ⟨"beta", by decide⟩)
  | rc => exact .inr (.inr ⟨"rc", by decide⟩)

theorem Spelling.text_eq (spelling : Spelling) : spelling.text = String.ofList spelling.major ++ "." ++
    String.ofList spelling.minor ++ "." ++ String.ofList spelling.micro ++
    String.ofList spelling.ending := by
  rw [← String.toList_inj]
  simp [text, chars]

section Reading

open Text (numeral_iff)

variable {decimal : Char → Bool} {text : String}

namespace Release

variable {release : Release}

theorem Capture.preview?_numbered {tag digits : String} {stage : Stage} {number : UInt32}
    (named : Stage.ofTag? tag.toList = some stage) (other : stage ≠ .dev)
    (numeral : Numeral digits number) : preview? tag digits = some (stage, number) := by
  have some_ : digits.toList.isEmpty = false := by
    rw [List.isEmpty_eq_false_iff]
    exact mt String.toList_eq_nil_iff.mp numeral.nonempty
  rw [preview?, named, some_]
  cases stage with
  | dev => exact absurd rfl other
  | alpha | beta | rc | final => simp [numeral_iff.mp numeral]

theorem Denotes.captured (isDecimal : Text.IsDecimal decimal) (denotes : Denotes text release) :
    ∃ capture : Capture, capture.Matches decimal text ∧ capture.release? = some release := by
  cases denotes with
  | final first second third =>
      refine ⟨⟨_, _, _, none⟩, ⟨by simp [Capture.ending], first.isRun isDecimal, second.isRun isDecimal,
        third.isRun isDecimal, nofun⟩, ?_⟩
      simp [Capture.release?, numeral_iff.mp first, numeral_iff.mp second, numeral_iff.mp third]
  | dev first second third =>
      have tagged : Capture.preview? "dev" "" = some (.dev, 0) := by decide
      refine ⟨⟨_, _, _, some ("dev", "")⟩, ⟨rfl, first.isRun isDecimal, second.isRun isDecimal,
        third.isRun isDecimal, ?_⟩, ?_⟩
      · rintro _ _ ⟨⟩
        exact ⟨by decide, by simp⟩
      · simp [Capture.release?, tagged, numeral_iff.mp first, numeral_iff.mp second, numeral_iff.mp third]
  | @numbered a b c d tag _ _ _ _ _ first second third tagged fourth =>
      obtain ⟨named, other, lower⟩ := Stage.ofTag?_numberedTags _ tagged
      have numbered := Capture.preview?_numbered named other fourth
      refine ⟨⟨a, b, c, some (tag, d)⟩, ⟨?_, first.isRun isDecimal, second.isRun isDecimal,
        third.isRun isDecimal, ?_⟩, ?_⟩
      · simp [Capture.ending, String.append_assoc]
      · rintro _ _ ⟨⟩
        exact ⟨lower, (fourth.isRun isDecimal).2⟩
      · simp [Capture.release?, numbered, numeral_iff.mp first, numeral_iff.mp second, numeral_iff.mp third]

theorem eq_of_stage {stage : Stage} {number : UInt32} (release : Release)
    (same : release.stage = stage) (zero : release.number = number) :
    release = ⟨release.major, release.minor, release.micro, stage, number⟩ := by
  rw [← same, ← zero]

theorem denotes_of_spells {spelling : Spelling} (spells : spelling.Spells release) :
    Denotes spelling.text release := by
  have numeral {cs : List Char} {n : UInt32} (word : Text.word? cs = some n) :
      Numeral (String.ofList cs) n := numeral_iff.mpr (by rw [String.toList_ofList, word])
  have first := numeral spells.major
  have second := numeral spells.minor
  have third := numeral spells.micro
  rw [spelling.text_eq]
  rcases Stage.cases_tag release.stage with last | last | ⟨tag, tagged, named, other⟩
  · have ending : String.ofList spelling.ending = "" := by
      simp [Spelling.ending, spells.stage, last, Stage.tag?]
    rw [ending, String.append_empty, release.eq_of_stage last (spells.unnumbered (.inl last)).2]
    exact .final first second third
  · obtain ⟨bare, zero⟩ := spells.unnumbered (.inr last)
    have ending : String.ofList spelling.ending = "-dev" := by
      rw [← String.toList_inj]
      simp [Spelling.ending, spells.stage, last, Stage.tag?, bare]
    rw [ending, release.eq_of_stage last zero]
    exact .dev first second third
  · have ending : String.ofList spelling.ending = "-" ++ tag ++ String.ofList spelling.number := by
      rw [← String.toList_inj, Spelling.ending, spells.stage, named]
      simp
    rw [ending, ← String.append_assoc, ← String.append_assoc]
    exact .numbered first second third tagged (numeral (spells.numbered other))

theorem parse?_eq_some_iff : parse? text = some release ↔ Denotes text release := by
  constructor
  · intro read
    obtain ⟨spelling, rfl, spells⟩ := exists_spelling read
    exact denotes_of_spells spells
  · intro denotes
    obtain ⟨capture, matched, converted⟩ := denotes.captured Text.isDecimal_isDigit
    rw [← matched.release?_eq Text.isDecimal_isDigit, converted]

theorem readsBy_pattern_iff (isDecimal : Text.IsDecimal decimal) (result : Option Release) :
    Text.ReadsBy (Capture.Matches decimal text) Capture.release? result ↔ result = parse? text := by
  refine Text.readsBy_iff (fun capture matched => matched.release?_eq isDecimal) ?_ result
  intro release read
  obtain ⟨capture, matched, -⟩ := (parse?_eq_some_iff.mp read).captured isDecimal
  exact ⟨capture, matched⟩

end Release

namespace ReleaseLine

variable {line : ReleaseLine}

theorem Denotes.captured (isDecimal : Text.IsDecimal decimal) (denotes : Denotes text line) :
    ∃ capture, Matches decimal text capture ∧ ofCapture? capture = some line := by
  obtain ⟨first, second⟩ := denotes
  refine ⟨(_, _), ⟨rfl, first.isRun isDecimal, second.isRun isDecimal⟩, ?_⟩
  simp [ofCapture?, numeral_iff.mp first, numeral_iff.mp second]

theorem parse?_eq_some_iff : parse? text = some line ↔ Denotes text line := by
  constructor
  · intro read
    unfold parse? at read
    split at read
    · next major minor fields =>
        simp only [Option.bind_eq_bind, Option.bind_eq_some_iff] at read
        obtain ⟨first, first_, second, second_, made⟩ := read
        cases made
        obtain ⟨back, whole, last⟩ := Text.eq_append_of_fields fields
        obtain rfl := (Text.eq_of_fields last).symm
        have spelled : text = String.ofList major ++ "." ++ String.ofList minor := by
          rw [← String.toList_inj, whole]
          simp
        rw [spelled]
        exact .intro (numeral_iff.mpr (by rw [String.toList_ofList, first_]))
          (numeral_iff.mpr (by rw [String.toList_ofList, second_]))
    · cases read
  · intro denotes
    obtain ⟨capture, matched, converted⟩ := denotes.captured Text.isDecimal_isDigit
    rw [← matched.ofCapture?_eq Text.isDecimal_isDigit, converted]

theorem readsBy_pattern_iff (isDecimal : Text.IsDecimal decimal) (result : Option ReleaseLine) :
    Text.ReadsBy (Matches decimal text) ofCapture? result ↔ result = parse? text := by
  refine Text.readsBy_iff (fun capture matched => matched.ofCapture?_eq isDecimal) ?_ result
  intro line read
  obtain ⟨capture, matched, -⟩ := (parse?_eq_some_iff.mp read).captured isDecimal
  exact ⟨capture, matched⟩

theorem not_denotes_of_release {release : Release} (denotes : Release.Denotes text release) :
    ¬ Denotes text line := by
  intro short
  obtain ⟨capture, long, -⟩ := denotes.captured Text.isDecimal_isDigit
  obtain ⟨capture', short, -⟩ := short.captured Text.isDecimal_isDigit
  have same : capture'.1.toList ++ '.' :: capture'.2.toList = capture.major.toList ++
      '.' :: (capture.minor.toList ++ '.' :: (capture.micro.toList ++ capture.ending.toList)) := by
    have whole := congrArg String.toList (short.whole.symm.trans long.whole)
    simpa using whole
  obtain ⟨-, rest⟩ := Text.append_cons_inj (short.major.notMem rfl) (long.major.notMem rfl) same
  apply short.minor.notMem (c := '.') rfl
  rw [rest]
  simp

end ReleaseLine

end Reading

/-- Texts are read as releases and lines as their patterns have it, whichever further decimal digits
these let through; exactly the texts of the forms of releases are read as such, any other is reported as
it stands, and exactly those of the form of lines, none of which is a release, are read as lines. -/
theorem Release.read_grammar (decimal : Char → Bool) (isDecimal : Text.IsDecimal decimal)
    (text : String) :
    (∀ result, Text.ReadsBy (Capture.Matches decimal text) Capture.release? result ↔
      result = parse? text) ∧
    (∀ result, Text.ReadsBy (ReleaseLine.Matches decimal text) ReleaseLine.ofCapture? result ↔
      result = ReleaseLine.parse? text) ∧
    (∀ release, read text = .ok release ↔ Denotes text release) ∧
    (∀ failure, read text = .error failure ↔
      failure = .malformedVersion text ∧ ∀ release, ¬ Denotes text release) ∧
    (∀ line, ReleaseLine.parse? text = some line ↔ ReleaseLine.Denotes text line) ∧
    ∀ release line, ¬ (Denotes text release ∧ ReleaseLine.Denotes text line) := by
  refine ⟨readsBy_pattern_iff isDecimal, ReleaseLine.readsBy_pattern_iff isDecimal, ?_, ?_,
    fun _ => ReleaseLine.parse?_eq_some_iff,
    fun _ _ ⟨long, short⟩ => ReleaseLine.not_denotes_of_release long short⟩
  · intro release
    rw [← parse?_eq_some_iff, read]
    cases parse? text <;> simp
  · intro failure
    simp only [← parse?_eq_some_iff, read]
    cases parse? text with
    | none => simp [eq_comm]
    | some release => simp

theorem Release.read_grammar_fullwidth :
    let decimal (c : Char) : Bool := c.isDigit || ('０' ≤ c && c ≤ '９')
    Text.IsDecimal decimal ∧
    Capture.Matches decimal "8.1.0-beta３" ⟨"8", "1", "0", some ("beta", "３")⟩ ∧
    read "8.1.0-beta３" = .error (.malformedVersion "8.1.0-beta３") ∧
    read "08.1.0-rc007" = .ok ⟨8, 1, 0, .rc, 7⟩ ∧
    ReleaseLine.parse? "08.1" = some ⟨8, 1⟩ := by
  intro decimal
  have isDecimal : Text.IsDecimal decimal := by
    refine ⟨fun c digit => by simp [decimal, digit], by decide, by decide, ?_⟩
    intro c lower
    have letter : c ≤ 'z' := of_decide_eq_true (Bool.and_eq_true_iff.mp lower).2
    have other : c.isDigit = false := Text.isDecimal_isDigit.letters c lower
    have before : ¬ '０' ≤ c := fun after => absurd (Char.le_trans after letter) (by decide)
    simp [decimal, other, before]
  have matched : Capture.Matches decimal "8.1.0-beta３"
      ⟨"8", "1", "0", some ("beta", "３")⟩ := by
    refine ⟨by decide, by decide, by decide, by decide, ?_⟩
    rintro _ _ ⟨⟩
    decide
  have seven : Text.Numeral "007" 7 := Text.numeral_iff.mpr (by decide)
  have eight : Text.Numeral "08" 8 := Text.numeral_iff.mpr (by decide)
  have one : Text.Numeral "1" 1 := Text.numeral_iff.mpr (by decide)
  have zero : Text.Numeral "0" 0 := Text.numeral_iff.mpr (by decide)
  have candidate : ("rc", Stage.rc) ∈ Stage.numberedTags := by decide
  obtain ⟨converted, -, -, rejected, -⟩ := read_grammar decimal isDecimal "8.1.0-beta３"
  obtain ⟨-, -, accepted, -⟩ := read_grammar decimal isDecimal "08.1.0-rc007"
  obtain ⟨-, -, -, -, lines, -⟩ := read_grammar decimal isDecimal "08.1"
  have none_ : parse? "8.1.0-beta３" = none := ((converted _).mp (.captured matched)).symm
  refine ⟨isDecimal, matched, (rejected _).mpr ⟨rfl, ?_⟩, ?_, ?_⟩
  · intro release denotes
    rw [← parse?_eq_some_iff, none_] at denotes
    cases denotes
  · exact (accepted _).mpr (.numbered eight one zero candidate seven)
  · exact (lines _).mpr (.intro eight one)

end Cookbook
