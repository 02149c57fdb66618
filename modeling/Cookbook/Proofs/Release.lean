import Cookbook.Proofs.Feed
import Cookbook.Proofs.Text.Trimming

/-!
Reading releases back from their texts: the text of a release is read as that release, is never taken
for a line, and has no blanks.
-/

namespace Cookbook

namespace Text

theorem isDigit_of_mem_digits {n : UInt32} {c : Char} (member : c ∈ digits n) : c.isDigit = true :=
  Nat.isDigit_of_mem_toDigits (by decide) (by decide) member

theorem word?_zero_digits (n : UInt32) : word? ('0' :: digits n) = some n := by
  have plain : (digits n).all Char.isDigit = true :=
    List.all_eq_true.mpr fun _ member => isDigit_of_mem_digits member
  have value : Nat.ofDigitChars 10 ('0' :: digits n) 0 = n.toNat :=
    Nat.ofDigitChars_toDigits (by decide) (by decide)
  simp [word?, plain, value, n.toNat_lt]

end Text

namespace Release

/-- The release as its text tells it: final releases and development builds have no number. -/
def shown (release : Release) : Release :=
  match release.stage with
  | .final | .dev => { release with number := 0 }
  | .alpha | .beta | .rc => release

/-- That a final release or development build has the number zero. -/
def Regular (release : Release) : Prop :=
  release.stage = .final ∨ release.stage = .dev → release.number = 0

instance (release : Release) : Decidable release.Regular := by
  unfold Regular
  infer_instance

theorem shown_of_regular {release : Release} (regular : release.Regular) :
    release.shown = release := by
  obtain ⟨major, minor, micro, stage, number⟩ := release
  cases stage <;> simp_all [shown, Regular]

def core (release : Release) : List Char :=
  Text.digits release.major ++ '.' :: Text.digits release.minor ++ '.' :: Text.digits release.micro

theorem dash_notMem_core (release : Release) : '-' ∉ release.core := by
  have absent := Text.notMem_digits (c := '-') (by decide)
  simp [core, absent]

theorem fields_core (release : Release) : Text.fields '.' release.core =
    [Text.digits release.major, Text.digits release.minor, Text.digits release.micro] := by
  have absent := Text.notMem_digits (c := '.') (by decide)
  rw [core, List.append_assoc, List.cons_append, Text.fields_append, Text.fields_append,
    Text.fields_of_notMem (absent _), Text.fields_of_notMem (absent _),
    Text.fields_of_notMem (absent _)]
  rfl

theorem splitDash_of_notMem {cs : List Char} (absent : '-' ∉ cs) : splitDash cs = (cs, none) := by
  have none_ : cs.dropWhile (· ≠ '-') = [] :=
    List.dropWhile_eq_nil_iff.mpr (List.all_eq_true.mp (Text.all_ne_of_notMem absent))
  rw [splitDash, none_]

theorem splitDash_append {cs : List Char} (absent : '-' ∉ cs) (suffix : List Char) :
    splitDash (cs ++ '-' :: suffix) = (cs, some suffix) := by
  have all := Text.all_ne_of_notMem absent
  have after : (cs ++ '-' :: suffix).dropWhile (· ≠ '-') = '-' :: suffix :=
    Text.dropWhile_append_of_all all (by simp)
  have before : (cs ++ '-' :: suffix).takeWhile (· ≠ '-') = cs :=
    Text.takeWhile_append_of_all all (by simp)
  rw [splitDash, after, before]

theorem word?_numberChars (release : Release) : Text.word? release.numberChars = some release.number := by
  unfold numberChars
  split
  · exact Text.word?_zero_digits _
  · exact Text.word?_digits _

theorem isDigit_of_mem_numberChars {release : Release} {c : Char}
    (member : c ∈ release.numberChars) : c.isDigit = true := by
  unfold numberChars at member
  split at member
  · rw [List.mem_cons] at member
    obtain rfl | member := member
    · rfl
    · exact Text.isDigit_of_mem_digits member
  · exact Text.isDigit_of_mem_digits member

/-- The text of a release's stage, after its dash. -/
def suffix? (release : Release) : Option (List Char) :=
  match release.stage with
  | .final => none
  | .dev => some "dev".toList
  | .alpha => some ("alpha".toList ++ release.numberChars)
  | .beta => some ("beta".toList ++ release.numberChars)
  | .rc => some ("rc".toList ++ release.numberChars)

theorem chars_eq (release : Release) :
    release.chars = release.core ++ (release.suffix?.map ('-' :: ·)).getD [] := by
  obtain ⟨major, minor, micro, stage, number⟩ := release
  cases stage <;> simp [chars, core, suffix?, Stage.tag?]

theorem not_isLower_of_isDigit {c : Char} (digit : c.isDigit = true) : c.isLower = false := by
  rw [Bool.eq_false_iff]
  intro lower
  have above : 'a'.val ≤ c.val := of_decide_eq_true (Bool.and_eq_true_iff.mp lower).1
  have below : c.val ≤ '9'.val := of_decide_eq_true (Bool.and_eq_true_iff.mp digit).2
  have least : 'a'.val ≤ '9'.val := UInt32.le_trans above below
  exact absurd least (by decide)

/-- A stage with what follows its tag. -/
def withNumber? (number : List Char) : Stage → Option (Stage × UInt32)
  | .dev => if number.isEmpty then some (.dev, 0) else none
  | stage => return (stage, ← Text.word? number)

theorem preview?_tagged {tag number : List Char} (lower : tag.all Char.isLower = true)
    (stop : ∀ c ∈ number.head?, c.isLower = false) :
    preview? (tag ++ number) = (Stage.ofTag? tag).bind (withNumber? number) := by
  unfold preview?
  rw [Text.takeWhile_append_of_all lower stop, Text.dropWhile_append_of_all lower stop]
  cases Stage.ofTag? tag with
  | none => rfl
  | some stage => cases number <;> cases stage <;> rfl

theorem preview?_append (tag : List Char) {stage : Stage} (release : Release)
    (lower : tag.all Char.isLower = true) (named : Stage.ofTag? tag = some stage)
    (other : stage ≠ .dev) :
    preview? (tag ++ release.numberChars) = some (stage, release.number) := by
  have stop : ∀ c ∈ release.numberChars.head?, c.isLower = false := fun _ first =>
    not_isLower_of_isDigit (isDigit_of_mem_numberChars (List.mem_of_mem_head? first))
  rw [preview?_tagged lower stop, named]
  cases stage with
  | dev => exact absurd rfl other
  | alpha | beta | rc | final => simp [withNumber?, word?_numberChars]

theorem splitDash_chars (release : Release) :
    splitDash release.chars = (release.core, release.suffix?) := by
  rw [chars_eq]
  cases release.suffix? with
  | none =>
      rw [Option.map_none, Option.getD_none, List.append_nil]
      exact splitDash_of_notMem release.dash_notMem_core
  | some suffix => exact splitDash_append release.dash_notMem_core suffix

theorem preview?_suffix {release : Release} {suffix : List Char}
    (has : release.suffix? = some suffix) :
    preview? suffix = some (release.shown.stage, release.shown.number) := by
  obtain ⟨major, minor, micro, stage, number⟩ := release
  cases stage <;> cases has
  case dev =>
    show preview? "dev".toList = some (.dev, 0)
    decide
  case alpha => exact preview?_append "alpha".toList _ (by decide) rfl nofun
  case beta => exact preview?_append "beta".toList _ (by decide) rfl nofun
  case rc => exact preview?_append "rc".toList _ (by decide) rfl nofun

theorem shown_of_no_suffix {release : Release} (none_ : release.suffix? = none) :
    release.shown = ⟨release.major, release.minor, release.micro, .final, 0⟩ := by
  obtain ⟨major, minor, micro, stage, number⟩ := release
  cases stage <;> cases none_
  rfl

theorem parse?_text (release : Release) : parse? release.text = some release.shown := by
  have split := release.splitDash_chars
  have numbers : release.shown =
      ⟨release.major, release.minor, release.micro, release.shown.stage, release.shown.number⟩ := by
    unfold shown
    split <;> rfl
  unfold parse? text parseChars?
  rw [String.toList_ofList, split]
  cases suffix : release.suffix? with
  | none => simp [fields_core, Text.word?_digits, shown_of_no_suffix suffix]
  | some suffix_ =>
      simp only [preview?_suffix suffix, fields_core, Text.word?_digits, bind, Option.bind]
      exact congrArg some numbers.symm

theorem no_line_of_text (release : Release) : ReleaseLine.parse? release.text = none := by
  have absent := Text.notMem_digits (c := '.') (by decide)
  have chars : release.text.toList = Text.digits release.major ++ '.' :: (Text.digits release.minor ++
      '.' :: (Text.digits release.micro ++ (release.suffix?.map ('-' :: ·)).getD [])) := by
    rw [text, String.toList_ofList, chars_eq, core]
    simp
  unfold ReleaseLine.parse?
  rw [chars, Text.fields_append, Text.fields_append, Text.fields_of_notMem (absent _),
    Text.fields_of_notMem (absent _)]
  split
  · next split =>
      have nonempty := Text.fields_ne_nil '.'
        (Text.digits release.micro ++ (release.suffix?.map ('-' :: ·)).getD [])
      simp_all
  · rfl

end Release

/-! ## Texts without blanks -/

theorem Text.not_isBlank_of_isDigit {c : Char} (digit : c.isDigit = true) : isBlank c = false := by
  have bounds : 48 ≤ c.toNat ∧ c.toNat ≤ 57 := by
    simpa [Char.isDigit, UInt32.le_iff_toNat_le] using digit
  simp only [isBlank, Bool.or_eq_false_iff, Bool.and_eq_false_iff, decide_eq_false_iff_not,
    beq_eq_false_iff_ne]
  omega

theorem Text.settled_of_all {cs : List Char} (nonempty : cs ≠ [])
    (all : ∀ c ∈ cs, isBlank c = false) : Settled cs where
  nonempty
  start c first := all c (List.mem_of_mem_head? first)
  last c last := all c (List.mem_of_getLast? last)

theorem Text.digits_not_blank (n : UInt32) : ∀ c ∈ digits n, isBlank c = false :=
  fun _ member => not_isBlank_of_isDigit (isDigit_of_mem_digits member)

theorem Release.not_blank_of_mem_suffix {release : Release} {suffix : List Char}
    (has : release.suffix? = some suffix) : ∀ c ∈ suffix, Text.isBlank c = false := by
  have number : ∀ c ∈ release.numberChars, Text.isBlank c = false :=
    fun _ member => Text.not_isBlank_of_isDigit (isDigit_of_mem_numberChars member)
  have tag {word : String} (settled : word.toList.any Text.isBlank = false) :
      ∀ c ∈ word.toList, Text.isBlank c = false := by
    simpa using settled
  unfold suffix? at has
  split at has <;> cases has
  · exact tag rfl
  all_goals
    intro c member
    rw [List.mem_append] at member
    obtain within | member := member
    · exact tag rfl c within
    · exact number c member

theorem Release.settled_text (release : Release) : Text.Settled release.text.toList := by
  rw [text, String.toList_ofList, chars_eq]
  refine Text.settled_of_all (by simp [core]) ?_
  intro c member
  simp only [core, List.mem_append, List.mem_cons] at member
  have digits := Text.digits_not_blank
  rcases member with ((major | rfl | minor) | rfl | micro) | suffix
  · exact digits _ c major
  · rfl
  · exact digits _ c minor
  · rfl
  · exact digits _ c micro
  · cases has : release.suffix? with
    | none => simp [has] at suffix
    | some text =>
        simp only [has, Option.map_some, Option.getD_some, List.mem_cons] at suffix
        obtain rfl | within := suffix
        · rfl
        · exact not_blank_of_mem_suffix has c within

theorem ReleaseLine.settled_text (line : ReleaseLine) : Text.Settled line.text.toList := by
  rw [text, String.toList_ofList, chars]
  refine Text.settled_of_all (by simp) ?_
  intro c member
  simp only [List.mem_append, List.mem_cons] at member
  rcases member with major | rfl | minor
  · exact Text.digits_not_blank _ c major
  · rfl
  · exact Text.digits_not_blank _ c minor

end Cookbook
