import Cookbook.Convert.Mode
import Cookbook.Proofs.Text.Markers

/-!
Edits whose markers do not get in each other's way. Each takes its own marker away and makes up none of
the others (`Proper.unmentioned`, `Proper.keeps`). The edits of every template are such edits when
versions have no dollar sign and SDK levels are made of digits (`independent_wrapEdits`).
-/

namespace Cookbook

namespace Edit

open Text (IsMarker Inert Diverge mentions)

/-- That an edit fills in something for a marker that completes no marker. -/
def Proper : Edit → Prop
  | inline marker value => IsMarker marker.toList ∧ (value = "" ∨ Inert value.toList)
  | lines marker values => IsMarker marker.toList ∧ ∀ value ∈ values, '$' ∉ value.toList

/-- That edits are proper, each for a marker of its own. -/
def Independent (edits : List Edit) : Prop :=
  (∀ edit ∈ edits, edit.Proper) ∧
    edits.Pairwise fun edit edit' => Diverge edit.marker.toList edit'.marker.toList

variable {edit : Edit} {other line made : String}

theorem Proper.marked (proper : edit.Proper) : IsMarker edit.marker.toList := by
  cases edit with
  | inline marker value => exact proper.1
  | lines marker values => exact proper.1

theorem Proper.unmentioned (proper : edit.Proper) (member : made ∈ edit.generate line) :
    mentions made edit.marker = false := by
  cases edit with
  | inline marker value =>
      rw [generate] at member
      split at member
      · cases member
      · next filled =>
          rw [List.mem_singleton] at member
          rw [member]
          exact Text.mentions_substitute_self proper.1 (proper.2.resolve_left filled)
  | lines marker values => exact Text.mentions_of_unsigned proper.1 (proper.2 made member)

theorem Proper.keeps (proper : edit.Proper) (marked : IsMarker other.toList)
    (diverge : Diverge edit.marker.toList other.toList) (unmentioned : mentions line other = false)
    (member : made ∈ edit.generate line) : mentions made other = false := by
  cases edit with
  | inline marker value =>
      rw [generate] at member
      split at member
      · cases member
      · next filled =>
          rw [List.mem_singleton] at member
          have inert := proper.2.resolve_left filled
          rw [member, Text.mentions_substitute_other proper.1 inert marked diverge, unmentioned]
  | lines marker values => exact Text.mentions_of_unsigned marked (proper.2 made member)

end Edit

/-! ## Templates -/

namespace Template

/-- The markers of a template, in the order in which they are filled in. -/
def markers : Template → List String
  | build => ["$AGP_VERSION", "$KOTLIN_VERSION", "$COMPILE_SDK", "$MINIMUM_SDK"]
  | settings => ["$AGP_REPOSITORY", "$PLUGIN_REPOSITORIES", "$DEPENDENCY_REPOSITORIES"]
  | catalog => ["$AGP_VERSION", "$KOTLIN_VERSION"]
  | wrapper => ["$GRADLE_LOCATION"]

theorem markers_wrapEdits (template : Template) (values : Values) :
    (template.wrapEdits values).map Edit.marker = template.markers := by
  cases template <;> rfl

theorem markers_marked (template : Template) :
    ∀ marker ∈ template.markers, Text.IsMarker marker.toList := by
  cases template <;> decide

theorem markers_diverge (template : Template) :
    template.markers.Pairwise fun marker marker' => Text.Diverge marker.toList marker'.toList := by
  cases template <;> decide

theorem independent_wrapEdits {template : Template} {values : Values}
    (proper : ∀ edit ∈ template.wrapEdits values, edit.Proper) :
    Edit.Independent (template.wrapEdits values) := by
  have diverge := template.markers_diverge
  rw [← template.markers_wrapEdits values, List.pairwise_map] at diverge
  exact ⟨proper, diverge⟩

end Template

/-! ## Values -/

open Text (Inert)

/-- That versions are quoted and have no dollar sign, and that SDK levels are made of digits. -/
structure Values.Plain (values : Values) : Prop where
  agp : ∃ version, '$' ∉ version.toList ∧ values.agp = Mode.inQuotes version
  kotlin : ∃ version, '$' ∉ version.toList ∧ values.kotlin = Mode.inQuotes version
  compileSdk : ∀ c ∈ values.compileSdk.toList, c.isDigit = true
  minimumSdk : ∀ c ∈ values.minimumSdk.toList, c.isDigit = true

theorem Mode.inert_inQuotes {version : String} (unsigned : '$' ∉ version.toList) :
    Inert (inQuotes version).toList := by
  have chars : (inQuotes version).toList = '"' :: (version.toList ++ ['"']) := by simp [inQuotes]
  rw [chars]
  exact ⟨List.cons_ne_nil _ _, by simp [Text.isCapital], by simp [unsigned]⟩

theorem Text.isCapital_of_isDigit {c : Char} (digit : c.isDigit = true) : isCapital c = false := by
  have below : c.val ≤ '9'.val := of_decide_eq_true (Bool.and_eq_true_iff.mp digit).2
  rw [isCapital, Bool.or_eq_false_iff]
  constructor
  · rw [Bool.eq_false_iff]
    intro upper
    have least : 'A'.val ≤ c.val := (of_decide_eq_true upper).1
    exact absurd (UInt32.le_trans least below) (by decide)
  · rw [decide_eq_false_iff_not]
    rintro rfl
    exact absurd below (by decide)

theorem Text.inert_digits {level : String} (digits : ∀ c ∈ level.toList, c.isDigit = true) :
    level = "" ∨ Inert level.toList := by
  by_cases empty : level = ""
  · exact .inl empty
  · refine .inr ⟨by simpa using empty, ?_, ?_⟩
    · exact fun c first => isCapital_of_isDigit (digits c (List.mem_of_mem_head? first))
    · intro sign
      have digit := digits _ sign
      revert digit
      decide

theorem Values.Plain.proper_build {values : Values} (plain : values.Plain) :
    ∀ edit ∈ Template.build.wrapEdits values, edit.Proper := by
  obtain ⟨agp, agpUnsigned, agpQuoted⟩ := plain.agp
  obtain ⟨kotlin, kotlinUnsigned, kotlinQuoted⟩ := plain.kotlin
  have marked := Template.build.markers_marked
  simp only [Template.markers, List.forall_mem_cons] at marked
  obtain ⟨agpMarked, kotlinMarked, compileMarked, minimumMarked, -⟩ := marked
  simp only [Template.wrapEdits, List.forall_mem_cons, agpQuoted, kotlinQuoted]
  exact ⟨⟨agpMarked, .inr (Mode.inert_inQuotes agpUnsigned)⟩,
    ⟨kotlinMarked, .inr (Mode.inert_inQuotes kotlinUnsigned)⟩,
    ⟨compileMarked, Text.inert_digits plain.compileSdk⟩,
    ⟨minimumMarked, Text.inert_digits plain.minimumSdk⟩, List.forall_mem_nil _⟩

theorem Values.Plain.proper_catalog {values : Values} (plain : values.Plain) :
    ∀ edit ∈ Template.catalog.wrapEdits values, edit.Proper :=
  fun edit member => plain.proper_build edit (List.mem_append_left _ member)

end Cookbook
