import Cookbook.Proofs.Placeholder.Filling
import Cookbook.Proofs.Placeholder.Stripping

/-!
Filling in for good. Edits follow one after another, each on the lines that the one before left. As
none makes up or takes apart a marker of another, this is the same as filling in all markers of a line
at once (`replaceAll_inlines`), so their order does not matter (`replaceAll_inlines_perm`) and no marker
is left (`unmentioned_replaceAll`).
-/

namespace Cookbook

open Text (IsMarker Diverge mentions substituteAll)

/-- What filling in several markers at once makes of a line: a line with a marker that stands for
nothing goes away. -/
def Text.fillAtOnce (pairs : List (String × String)) (line : String) : List String :=
  if pairs.any fun pair => pair.2 = "" && mentions line pair.1 then [] else [substituteAll line pairs]

namespace Edit

open Text (fillAtOnce)

def inlines (pairs : List (String × String)) : List Edit := pairs.map fun pair => inline pair.1 pair.2

variable {marker value : String} {pairs order : List (String × String)} {edit : Edit} {edits : List Edit}

/-! ## One edit before the others -/

theorem Independent.tail (independent : Independent (edit :: edits)) : Independent edits :=
  ⟨(List.forall_mem_cons.mp independent.1).2, (List.pairwise_cons.mp independent.2).2⟩

theorem marked_of_independent (independent : Independent (inlines pairs)) :
    ∀ pair ∈ pairs, IsMarker pair.1.toList :=
  fun pair member => (independent.1 (inline pair.1 pair.2) (List.mem_map_of_mem member)).marked

theorem diverge_of_independent (independent : Independent (inlines pairs)) :
    pairs.Pairwise fun pair pair' => Diverge pair.1.toList pair'.1.toList := by
  have diverge := independent.2
  rwa [inlines, List.pairwise_map] at diverge

theorem fillAtOnce_generate (independent : Independent (inlines ((marker, value) :: pairs))) (line : String) :
    (if mentions line marker then (inline marker value).generate line else [line]).flatMap
        (fillAtOnce pairs) = fillAtOnce ((marker, value) :: pairs) line := by
  have proper : (inline marker value).Proper := independent.1 _ List.mem_cons_self
  have markedAll := marked_of_independent independent.tail
  have diverge := (List.pairwise_cons.mp (diverge_of_independent independent)).1
  by_cases mentioned : mentions line marker = true
  · by_cases empty : value = ""
    · simp [fillAtOnce, generate, mentioned, empty]
    · have inert := proper.2.resolve_left empty
      have elsewhere : ∀ pair ∈ pairs,
          mentions (Text.substitute line marker value) pair.1 = mentions line pair.1 := fun pair member =>
        Text.mentions_substitute_other proper.1 inert (markedAll pair member) (diverge pair member)
      have dropped : (pairs.any fun pair =>
            pair.2 = "" && mentions (Text.substitute line marker value) pair.1) =
          pairs.any fun pair => pair.2 = "" && mentions line pair.1 := by
        rw [Bool.eq_iff_iff, List.any_eq_true, List.any_eq_true]
        exact exists_congr fun pair => and_congr_right fun member => by rw [elsewhere pair member]
      simp only [fillAtOnce, generate, mentioned, empty, if_true, if_false, List.flatMap_singleton,
        List.any_cons, decide_false, Bool.false_and, Bool.false_or, dropped,
        Text.substituteAll_substitute proper.1 inert markedAll]
  · have absent : mentions line marker = false := Bool.eq_false_iff.mpr mentioned
    simp only [fillAtOnce, absent, Bool.false_eq_true, if_false, List.flatMap_singleton, List.any_cons,
      Bool.and_false, Bool.false_or, Text.substituteAll_of_unmentioned absent]

/-! ## All edits -/

theorem replaceAll_inlines (independent : Independent (inlines pairs)) (lines : List String) :
    replaceAll (inlines pairs) lines = lines.flatMap (fillAtOnce pairs) := by
  induction pairs generalizing lines with
  | nil =>
      have same : fillAtOnce [] = fun line => [line] := by
        funext line
        simp [fillAtOnce, Text.substituteAll_nil]
      rw [same, List.flatMap_singleton']
      rfl
  | cons pair pairs ih =>
      calc replaceAll (inlines (pair :: pairs)) lines
          = ((inline pair.1 pair.2).replace lines).flatMap (fillAtOnce pairs) := ih independent.tail _
        _ = lines.flatMap (fillAtOnce (pair :: pairs)) := by
            rw [replace, List.flatMap_assoc]
            exact List.flatMap_congr fun line _ => fillAtOnce_generate independent line

theorem Independent.perm {edits' : List Edit} (independent : Independent edits) (perm : edits.Perm edits') :
    Independent edits' :=
  ⟨fun edit member => independent.1 edit (perm.mem_iff.mpr member),
    independent.2.perm perm Diverge.symm⟩

theorem replaceAll_inlines_perm (independent : Independent (inlines pairs)) (perm : pairs.Perm order)
    (lines : List String) : replaceAll (inlines order) lines = replaceAll (inlines pairs) lines := by
  rw [replaceAll_inlines independent, replaceAll_inlines (independent.perm (perm.map _))]
  refine List.flatMap_congr fun line _ => ?_
  rw [fillAtOnce, fillAtOnce, perm.any_eq, Text.substituteAll_perm perm (diverge_of_independent independent)]

theorem Proper.keeps_replace {lines : List String} {other : String} (proper : edit.Proper)
    (marked : IsMarker other.toList) (diverge : Diverge edit.marker.toList other.toList)
    (unmentioned : ∀ line ∈ lines, mentions line other = false) :
    ∀ line ∈ edit.replace lines, mentions line other = false := by
  intro made member
  obtain ⟨line, source, member⟩ := List.mem_flatMap.mp member
  split at member
  · exact proper.keeps marked diverge (unmentioned line source) member
  · rw [List.mem_singleton.mp member]
    exact unmentioned line source

theorem Proper.unmentioned_replace {lines : List String} (proper : edit.Proper) :
    ∀ line ∈ edit.replace lines, mentions line edit.marker = false := by
  intro made member
  obtain ⟨line, -, member⟩ := List.mem_flatMap.mp member
  split at member
  · exact proper.unmentioned member
  · next absent =>
      rw [List.mem_singleton.mp member]
      exact Bool.eq_false_iff.mpr absent

theorem keeps_replaceAll {lines : List String} {other : String} (proper : ∀ edit ∈ edits, edit.Proper)
    (marked : IsMarker other.toList) (diverge : ∀ edit ∈ edits, Diverge edit.marker.toList other.toList)
    (unmentioned : ∀ line ∈ lines, mentions line other = false) :
    ∀ line ∈ replaceAll edits lines, mentions line other = false := by
  induction edits generalizing lines with
  | nil => exact unmentioned
  | cons edit edits ih =>
      rw [List.forall_mem_cons] at proper diverge
      exact ih proper.2 diverge.2 (proper.1.keeps_replace marked diverge.1 unmentioned)

theorem unmentioned_replaceAll (independent : Independent edits) (lines : List String) :
    ∀ line ∈ replaceAll edits lines, ∀ edit ∈ edits, mentions line edit.marker = false := by
  induction edits generalizing lines with
  | nil => simp
  | cons edit edits ih =>
      intro line member
      have proper := List.forall_mem_cons.mp independent.1
      have diverge := (List.pairwise_cons.mp independent.2).1
      refine List.forall_mem_cons.mpr ⟨?_, ih independent.tail _ line member⟩
      exact keeps_replaceAll proper.2 proper.1.marked (fun other there => (diverge other there).symm)
        proper.1.unmentioned_replace line member

end Edit

/-! ## Build files and version catalogs -/

namespace Values

variable {values : Values}

def versions (values : Values) : List (String × String) :=
  [("$AGP_VERSION", values.agp), ("$KOTLIN_VERSION", values.kotlin)]

def levels (values : Values) : List (String × String) :=
  [("$COMPILE_SDK", values.compileSdk), ("$MINIMUM_SDK", values.minimumSdk)]

end Values

/-- That a plan fills in all markers of a line in one pass, in whichever order they are taken, and
leaves none. -/
structure Plan.FillsAtOnce (plan : Plan) (template : Template) (pairs : List (String × String)) : Prop where
  eachLine : ∀ lines, plan.apply template lines = lines.flatMap (Text.fillAtOnce pairs)
  anyOrder : ∀ order, pairs.Perm order → ∀ lines,
    Edit.replaceAll (Edit.inlines order) lines = plan.apply template lines
  gone : ∀ lines, ∀ line ∈ plan.apply template lines, ∀ pair ∈ pairs, mentions line pair.1 = false

theorem Plan.fillsAtOnce_of_edits {values : Values} {template : Template} {pairs : List (String × String)}
    (edits : template.replaceEdits values = Edit.inlines pairs)
    (independent : Edit.Independent (Edit.inlines pairs)) :
    (Plan.replace values).FillsAtOnce template pairs := by
  have applied : (Plan.replace values).apply template = Edit.replaceAll (Edit.inlines pairs) := by
    funext lines
    rw [apply, edits, Edit.replaceAll]
  constructor
  case eachLine =>
    intro lines
    rw [applied, Edit.replaceAll_inlines independent]
  case anyOrder =>
    intro order perm lines
    rw [applied, Edit.replaceAll_inlines_perm independent perm]
  case gone =>
    intro lines line member pair among
    rw [applied] at member
    exact Edit.unmentioned_replaceAll independent lines line member _ (List.mem_map_of_mem among)

/-- The markers of build files and version catalogs are filled in at once, in whichever order. -/
theorem Values.Plain.replace_fillsAtOnce {values : Values} (plain : values.Plain) :
    (Plan.replace values).FillsAtOnce .build (values.versions ++ values.levels) ∧
      (Plan.replace values).FillsAtOnce .catalog values.versions :=
  ⟨Plan.fillsAtOnce_of_edits rfl (Template.independent_wrapEdits plain.proper_build),
    Plan.fillsAtOnce_of_edits rfl (Template.independent_wrapEdits plain.proper_catalog)⟩

def libraryValues : Values where
  agp := "\"8.1.0\""
  kotlin := "\"1.9.0\""
  compileSdk := ""
  minimumSdk := "21"
  agpRepository := ""
  pluginRepositories := []
  dependencyRepositories := []
  gradleLocation := ""

/-- Markers side by side, a marker cut short right before another, and one that stands for nothing. -/
theorem replace_fillsAtOnce_library :
    (Plan.replace libraryValues).apply .build
        ["a $AGP_VERSION$KOTLIN_VERSION", "$MINIMUM$MINIMUM_SDK_SDK", "b $COMPILE_SDK $MINIMUM_SDK"] =
      ["a \"8.1.0\"\"1.9.0\"", "$MINIMUM21_SDK"] := by
  have plain : libraryValues.Plain :=
    ⟨⟨"8.1.0", by decide +kernel, rfl⟩, ⟨"1.9.0", by decide +kernel, rfl⟩,
      List.all_eq_true.mp (by decide +kernel), List.all_eq_true.mp (by decide +kernel)⟩
  exact (plain.replace_fillsAtOnce.1.eachLine _).trans (by decide +kernel)

end Cookbook
