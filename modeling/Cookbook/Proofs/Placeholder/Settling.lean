import Cookbook.Proofs.Placeholder.Replacing
import Cookbook.Proofs.Release

/-!
Working copies of working copies. Once an edit is wrapped there is nothing left for it to fill in: its
marker is only in comments that are kept (`spent_wrap`). Wrapping other edits does not bring it back
(`Spent.wrap`), so what all edits are wrapped in stays as it is when they are wrapped again
(`wrapAll_wrapAll`).
-/

namespace Cookbook

namespace Block

variable {style : CommentStyle} {marker : String} {generate : String → List String}

theorem wrapLine_of_not_filled {reading : Block × String} (unfilled : isFilled style marker reading = false) :
    (wrapLine style marker generate reading.1 reading.2).2 = [reading.2] := by
  obtain ⟨block, line⟩ := reading
  cases block with
  | kept => rfl
  | outside => by_cases opens : line = style.opening <;> simp_all [isFilled, wrapLine]
  | generated => by_cases closes : line = style.closing <;> simp_all [isFilled, wrapLine]

theorem flatMap_readings (step : Block → String → Block × List String) (block : Block)
    (lines : List String) : ((readings step block lines).flatMap fun reading => [reading.2]) = lines := by
  induction lines generalizing block with
  | nil => rfl
  | cons line lines ih => rw [readings, List.flatMap_cons, ih, List.singleton_append]

theorem isFilled_eq_false_of_unmentioned {reading : Block × String}
    (unmentioned : Text.mentions reading.2 marker = false) : isFilled style marker reading = false := by
  obtain ⟨block, line⟩ := reading
  cases block <;> simp_all [isFilled]

theorem mentions_of_isFilled {reading : Block × String} (fills : isFilled style marker reading = true) :
    Text.mentions reading.2 marker = true := by
  by_contra unmentioned
  rw [isFilled_eq_false_of_unmentioned (Bool.eq_false_iff.mpr unmentioned)] at fills
  cases fills

theorem unmentioned_of_filled {other : String} {reading : Block × String}
    (fills : isFilled style marker reading = true) (unfilled : isFilled style other reading = false) :
    Text.mentions reading.2 other = false := by
  obtain ⟨block, line⟩ := reading
  cases block with
  | kept => cases fills
  | outside => simp_all [isFilled]
  | generated => simp_all [isFilled]

end Block

namespace Edit

open Block (readings stripLine refill isFilled)
open Text (mentions)

variable {style : CommentStyle} {edit other : Edit} {edits : List Edit} {lines : List String}

/-- That wrapping the edit finds nothing to fill in. -/
def Spent (style : CommentStyle) (edit : Edit) (lines : List String) : Prop :=
  ∀ reading ∈ readings (stripLine style) .outside lines, isFilled style edit.marker reading = false

/-- That no line the edit fills in is a closing sentinel. -/
def NeverCloses (style : CommentStyle) (edit : Edit) : Prop :=
  ∀ line, mentions line edit.marker = true → style.closing ∉ edit.generate line

theorem Spent.wrap_eq (spent : edit.Spent style lines) : edit.wrap style lines = lines := by
  rw [wrap, Block.wrap, Block.run_eq_flatMap, Block.readings_wrapLine]
  calc _ = (readings (stripLine style) .outside lines).flatMap fun reading => [reading.2] :=
        List.flatMap_congr fun reading member => Block.wrapLine_of_not_filled (spent reading member)
    _ = lines := Block.flatMap_readings _ _ _

theorem NeverCloses.closing_notMem (neverCloses : edit.NeverCloses style) (lines : List String) :
    style.closing ∉ edit.generated style lines := by
  rw [generated, List.mem_flatMap]
  rintro ⟨reading, member, closes⟩
  exact neverCloses _ (Block.mentions_of_isFilled (List.mem_filter.mp member).2) closes

/-- Each line of a wrapped file is one that was not filled in, a sentinel, a kept line or a line that
was filled in. -/
theorem mem_readings_wrap (neverCloses : edit.NeverCloses style) {reading : Block × String}
    (member : reading ∈ readings (stripLine style) .outside (edit.wrap style lines)) :
    (reading ∈ readings (stripLine style) .outside lines ∧ isFilled style edit.marker reading = false) ∨
      (∀ marker, isFilled style marker reading = false) ∨
      ∃ source ∈ readings (stripLine style) .outside lines, isFilled style edit.marker source = true ∧
        reading.2 ∈ edit.generate source.2 := by
  rw [readings_wrap (neverCloses.closing_notMem lines)] at member
  obtain ⟨source, found, member⟩ := List.mem_flatMap.mp member
  by_cases fills : isFilled style edit.marker source = true
  · rw [refill, if_pos fills] at member
    obtain ⟨block, line⟩ := source
    have written {made : Block × String}
        (among : made ∈ (edit.generate line).map fun line => (Block.generated, line)) :
        made.2 ∈ edit.generate line := by
      obtain ⟨text, inGenerated, rfl⟩ := List.mem_map.mp among
      exact inGenerated
    cases block with
    | kept => cases fills
    | generated => exact .inr (.inr ⟨_, found, fills, written member⟩)
    | outside =>
        simp only [List.cons_append, List.mem_cons, List.mem_append, List.not_mem_nil, or_false] at member
        obtain rfl | rfl | among | rfl := member
        · exact .inr (.inl fun marker => by simp [isFilled])
        · exact .inr (.inl fun marker => rfl)
        · exact .inr (.inr ⟨_, found, fills, written among⟩)
        · exact .inr (.inl fun marker => by simp [isFilled])
  · rw [refill, if_neg fills, List.mem_singleton] at member
    rw [member]
    exact .inl ⟨found, Bool.eq_false_iff.mpr fills⟩

theorem Proper.spent_wrap (proper : edit.Proper) (neverCloses : edit.NeverCloses style)
    (lines : List String) : edit.Spent style (edit.wrap style lines) := by
  intro reading member
  obtain ⟨-, unfilled⟩ | unfilled | ⟨source, -, -, made⟩ := mem_readings_wrap neverCloses member
  · exact unfilled
  · exact unfilled _
  · exact Block.isFilled_eq_false_of_unmentioned (proper.unmentioned made)

theorem Spent.wrap (spent : other.Spent style lines) (marked : Text.IsMarker other.marker.toList)
    (proper : edit.Proper) (diverge : Text.Diverge edit.marker.toList other.marker.toList)
    (neverCloses : edit.NeverCloses style) : other.Spent style (edit.wrap style lines) := by
  intro reading member
  obtain ⟨found, -⟩ | unfilled | ⟨source, found, fills, made⟩ := mem_readings_wrap neverCloses member
  · exact spent reading found
  · exact unfilled _
  · have unmentioned := Block.unmentioned_of_filled fills (spent source found)
    exact Block.isFilled_eq_false_of_unmentioned (proper.keeps marked diverge unmentioned made)

/-! ## All edits -/

theorem Spent.wrapAll (spent : other.Spent style lines) (marked : Text.IsMarker other.marker.toList)
    (proper : ∀ edit ∈ edits, edit.Proper)
    (diverge : ∀ edit ∈ edits, Text.Diverge edit.marker.toList other.marker.toList)
    (neverClose : ∀ edit ∈ edits, edit.NeverCloses style) :
    other.Spent style (wrapAll style edits lines) := by
  induction edits generalizing lines with
  | nil => exact spent
  | cons edit edits ih =>
      rw [List.forall_mem_cons] at proper diverge neverClose
      exact ih (spent.wrap marked proper.1 diverge.1 neverClose.1) proper.2 diverge.2 neverClose.2

theorem Independent.spent_wrapAll (independent : Independent edits)
    (neverClose : ∀ edit ∈ edits, edit.NeverCloses style) (lines : List String) :
    ∀ edit ∈ edits, edit.Spent style (Edit.wrapAll style edits lines) := by
  induction edits generalizing lines with
  | nil => simp
  | cons edit edits ih =>
      have proper := List.forall_mem_cons.mp independent.1
      have diverge := (List.pairwise_cons.mp independent.2).1
      rw [List.forall_mem_cons] at neverClose
      refine List.forall_mem_cons.mpr ⟨?_, ih independent.tail neverClose.2 _⟩
      exact (proper.1.spent_wrap neverClose.1 lines).wrapAll proper.1.marked proper.2
        (fun other there => (diverge other there).symm) neverClose.2

theorem wrapAll_of_spent (spent : ∀ edit ∈ edits, edit.Spent style lines) :
    wrapAll style edits lines = lines := by
  induction edits with
  | nil => rfl
  | cons edit edits ih =>
      rw [List.forall_mem_cons] at spent
      calc wrapAll style (edit :: edits) lines
          = wrapAll style edits (edit.wrap style lines) := rfl
        _ = lines := by rw [spent.1.wrap_eq, ih spent.2]

theorem wrapAll_wrapAll (independent : Independent edits)
    (neverClose : ∀ edit ∈ edits, edit.NeverCloses style) (lines : List String) :
    wrapAll style edits (wrapAll style edits lines) = wrapAll style edits lines :=
  wrapAll_of_spent (independent.spent_wrapAll neverClose lines)

/-! ## What never closes a block -/

theorem neverCloses_inline {marker value : String} {c : Char} (inValue : c ∈ value.toList)
    (foreign : c ∉ style.closing.toList) : (inline marker value).NeverCloses style := by
  intro line mentioned closes
  rw [generate] at closes
  split at closes
  · cases closes
  · rw [List.mem_singleton] at closes
    exact foreign (closes ▸ Text.subset_substitute mentioned inValue)

theorem neverCloses_empty (marker : String) : (inline marker "").NeverCloses style := by
  simp [NeverCloses, generate]

theorem neverCloses_inQuotes (marker version : String) :
    (inline marker (Mode.inQuotes version)).NeverCloses style := by
  have quoted : '"' ∈ (Mode.inQuotes version).toList := by simp [Mode.inQuotes]
  exact neverCloses_inline quoted (by cases style <;> decide)

theorem neverCloses_digits (marker : String) {level : String}
    (digits : ∀ c ∈ level.toList, c.isDigit = true) : (inline marker level).NeverCloses style := by
  by_cases empty : level = ""
  · rw [empty]
    exact neverCloses_empty marker
  · obtain ⟨c, cs, chars⟩ := List.exists_cons_of_ne_nil (mt String.toList_eq_nil_iff.mp empty)
    have inLevel : c ∈ level.toList := by rw [chars]; exact List.mem_cons_self
    have noDigits : style.closing.toList.any Char.isDigit = false := by
      cases style <;> decide
    refine neverCloses_inline inLevel fun inClosing => ?_
    exact List.any_eq_false.mp noDigits c inClosing (digits c inLevel)

end Edit

/-! ## Working copies -/

theorem Release.dollar_notMem_text (release : Release) : '$' ∉ release.text.toList := by
  have absent := Text.notMem_digits (c := '$') (by decide)
  have number : '$' ∉ release.numberChars := fun member =>
    absurd (isDigit_of_mem_numberChars member) (by decide)
  rw [text, String.toList_ofList, chars_eq, suffix?]
  split <;> simp [core, absent, number]

theorem toList_between (start text end_ : String) :
    (start ++ text ++ end_).toList = start.toList ++ (text.toList ++ end_.toList) := by
  rw [String.toList_append, String.toList_append, List.append_assoc]

theorem toList_gradleUrl (version : String) : (gradleUrl version).toList =
    "https\\://services.gradle.org/distributions/gradle-".toList ++
      (version.toList ++ "-bin.zip".toList) :=
  toList_between _ _ _

theorem inert_gradleUrl {version : String} (unsigned : '$' ∉ version.toList) :
    Text.Inert (gradleUrl version).toList := by
  rw [toList_gradleUrl]
  refine .append (.of_head (c := 'h') (by decide) (by decide) (by decide)) ?_
  rw [List.mem_append, not_or]
  exact ⟨unsigned, by decide⟩

theorem mem_gradleUrl (version : String) : 'h' ∈ (gradleUrl version).toList := by
  rw [toList_gradleUrl]
  exact List.mem_append_left _ (by decide)

theorem repositories_plain : ∀ line ∈ publicPluginRepositories ++ publicDependencyRepositories,
    '$' ∉ line.toList ∧ ∀ style : CommentStyle, style.closing ≠ line := by
  have plugins : ∀ line ∈ publicPluginRepositories ++ publicDependencyRepositories,
      '$' ∉ line.toList ∧ line ≠ CommentStyle.gradle.closing ∧ line ≠ CommentStyle.properties.closing := by
    decide
  intro line member
  obtain ⟨unsigned, gradle, properties⟩ := plugins line member
  refine ⟨unsigned, fun style closes => ?_⟩
  cases style with
  | gradle => exact gradle closes.symm
  | properties => exact properties closes.symm

section WorkingCopy

variable {descriptor : Descriptor} {context : Context} {companions : Companions}

theorem leastValues_plain (kotlin : '$' ∉ companions.kotlin.toList)
    (compileSdk : ∀ c ∈ context.config.compileSdk.toList, c.isDigit = true)
    (minimumSdk : ∀ c ∈ context.config.minimumSdk.toList, c.isDigit = true) :
    (descriptor.leastValues context companions).Plain where
  agp := ⟨_, descriptor.minimum.dollar_notMem_text, rfl⟩
  kotlin := ⟨_, kotlin, rfl⟩
  compileSdk := compileSdk
  minimumSdk := minimumSdk

theorem leastValues_proper (plain : (descriptor.leastValues context companions).Plain)
    (gradle : '$' ∉ companions.gradle.toList) (template : Template) :
    ∀ edit ∈ template.wrapEdits (descriptor.leastValues context companions), edit.Proper := by
  have marked := template.markers_marked
  cases template with
  | build => exact plain.proper_build
  | catalog => exact plain.proper_catalog
  | settings =>
      have unsigned := fun line member => (repositories_plain line member).1
      rw [List.forall_mem_append] at unsigned
      simp only [Template.markers, Template.wrapEdits, List.forall_mem_cons] at marked ⊢
      exact ⟨⟨marked.1, .inl rfl⟩, ⟨marked.2.1, unsigned.1⟩, ⟨marked.2.2.1, unsigned.2⟩,
        List.forall_mem_nil _⟩
  | wrapper =>
      simp only [Template.markers, Template.wrapEdits, List.forall_mem_cons] at marked ⊢
      exact ⟨⟨marked.1, .inr (inert_gradleUrl gradle)⟩, List.forall_mem_nil _⟩

theorem leastValues_neverClose (plain : (descriptor.leastValues context companions).Plain)
    (template : Template) (style : CommentStyle) :
    ∀ edit ∈ template.wrapEdits (descriptor.leastValues context companions), edit.NeverCloses style := by
  have versions : ∀ edit ∈ Template.catalog.wrapEdits (descriptor.leastValues context companions),
      edit.NeverCloses style := by
    simp only [Template.wrapEdits, List.forall_mem_cons]
    exact ⟨Edit.neverCloses_inQuotes _ _, Edit.neverCloses_inQuotes _ _, List.forall_mem_nil _⟩
  cases template with
  | catalog => exact versions
  | build =>
      simp only [Template.wrapEdits, List.forall_mem_cons] at versions ⊢
      exact ⟨versions.1, versions.2.1, Edit.neverCloses_digits _ plain.compileSdk,
        Edit.neverCloses_digits _ plain.minimumSdk, List.forall_mem_nil _⟩
  | settings =>
      have closes := fun line member => (repositories_plain line member).2 style
      rw [List.forall_mem_append] at closes
      simp only [Template.wrapEdits, List.forall_mem_cons]
      exact ⟨Edit.neverCloses_empty _, fun _ _ member => closes.1 _ member rfl,
        fun _ _ member => closes.2 _ member rfl, List.forall_mem_nil _⟩
  | wrapper =>
      simp only [Template.wrapEdits, List.forall_mem_cons]
      have unsaid : 'h' ∉ style.closing.toList := by cases style <;> decide
      exact ⟨Edit.neverCloses_inline (mem_gradleUrl _) unsaid, List.forall_mem_nil _⟩

/-- Converting the lines of a file to a working copy twice comes to the same as converting them once,
whatever sentinels there are among them. -/
theorem workingCopy_settles (descriptor : Descriptor) (context : Context) (plan : Plan)
    (planned : Mode.workingCopy.plan descriptor context = .ok plan)
    (unsigned : ∀ companions, context.table.get? descriptor.minimum.line = some companions →
      '$' ∉ companions.kotlin.toList ∧ '$' ∉ companions.gradle.toList)
    (compileSdk : ∀ c ∈ context.config.compileSdk.toList, c.isDigit = true)
    (minimumSdk : ∀ c ∈ context.config.minimumSdk.toList, c.isDigit = true)
    (template : Template) (lines : List String) :
    plan.apply template (plan.apply template lines) = plan.apply template lines := by
  cases mapped : context.table.get? descriptor.minimum.line with
  | none => simp [Mode.plan, Context.companions, mapped, bind, Except.bind] at planned
  | some companions =>
      obtain ⟨kotlin, gradle⟩ := unsigned companions mapped
      rw [workingCopy_plan mapped, Except.ok.injEq] at planned
      rw [← planned]
      have plain : (descriptor.leastValues context companions).Plain :=
        leastValues_plain kotlin compileSdk minimumSdk
      exact Edit.wrapAll_wrapAll
        (Template.independent_wrapEdits (leastValues_proper plain gradle template))
        (leastValues_neverClose plain template template.style) lines

end WorkingCopy

/-- A block left open, a stray sentinel, and a block whose generated line is filled in anew. -/
theorem workingCopy_settles_stray :
    ∃ plan, Mode.workingCopy.plan singleLineRecipe singleLineContext = .ok plan ∧
      ∀ lines ∈ [["//  <<< WORKING_COPY <<<", "a $AGP_VERSION $KOTLIN_VERSION"],
          ["//  >>> WORKING_COPY >>>", "$AGP_VERSION", "b $COMPILE_SDK"]],
        plan.apply .build (plan.apply .build lines) = plan.apply .build lines := by
  have mapped : singleLineContext.table.get? singleLineRecipe.minimum.line =
      some ⟨"8.0", "1.9.0"⟩ := by decide +kernel
  refine ⟨_, workingCopy_plan mapped, fun lines _ => ?_⟩
  refine workingCopy_settles _ _ _ (workingCopy_plan mapped) ?_
    (List.all_eq_true.mp (by decide +kernel)) (List.all_eq_true.mp (by decide +kernel)) .build lines
  intro companions found
  rw [mapped, Option.some.injEq] at found
  rw [← found]
  decide

end Cookbook
