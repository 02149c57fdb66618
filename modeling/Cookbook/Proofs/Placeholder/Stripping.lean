import Cookbook.Convert.Mode
import Cookbook.Proofs.Placeholder.Rewrapping

/-!
Working copies and releases. A working copy without its sentinels and kept lines is what a release for
the recipe's least release would have been.
-/

namespace Cookbook

namespace Edit

open Block (readings stripLine refill isFilled)

variable {style : CommentStyle} {edit : Edit} {lines : List String}

def replaceAll (edits : List Edit) (lines : List String) : List String :=
  edits.foldl (fun lines edit => edit.replace lines) lines

theorem stripLine_generated (unclosed : style.closing ∉ lines) :
    (lines.map fun line => (Block.generated, line)).flatMap
      (fun reading => (stripLine style reading.1 reading.2).2) = lines := by
  induction lines with
  | nil => rfl
  | cons line lines ih =>
      rw [List.mem_cons, not_or] at unclosed
      simp only [List.map_cons, List.flatMap_cons, ih unclosed.2]
      simp [stripLine, Ne.symm unclosed.1]

theorem stripLine_refill {reading : Block × String}
    (unclosed : isFilled style edit.marker reading → style.closing ∉ edit.generate reading.2) :
    (refill style edit.marker edit.generate reading).flatMap
        (fun reading => (stripLine style reading.1 reading.2).2) =
      edit.replace (stripLine style reading.1 reading.2).2 := by
  obtain ⟨block, line⟩ := reading
  by_cases fills : isFilled style edit.marker (block, line) = true
  · have generated := stripLine_generated (unclosed fills)
    cases block with
    | kept => simp [isFilled] at fills
    | generated =>
        simp only [isFilled, Bool.and_eq_true, decide_eq_true_eq] at fills
        have passed : stripLine style .generated line = (.generated, [line]) := by
          simp [stripLine, fills.1]
        simp [refill, isFilled, fills, generated, passed, replace]
    | outside =>
        simp only [isFilled, Bool.and_eq_true, decide_eq_true_eq] at fills
        have opened : stripLine style .outside style.opening = (.kept, []) := by simp [stripLine]
        have dropped : stripLine style .kept (style.comment line) = (.generated, []) := rfl
        have closed : stripLine style .generated style.closing = (.outside, []) := by
          simp [stripLine]
        have passed : stripLine style .outside line = (.outside, [line]) := by
          simp [stripLine, fills.1]
        simp [refill, isFilled, fills, generated, opened, dropped, closed, passed, replace]
  · cases block with
    | kept => rfl
    | generated => by_cases closes : line = style.closing <;>
        simp_all [isFilled, refill, stripLine, replace]
    | outside => by_cases opens : line = style.opening <;>
        simp_all [isFilled, refill, stripLine, replace]

theorem strip_wrap (unclosed : style.closing ∉ edit.generated style lines) :
    Block.strip style (edit.wrap style lines) = edit.replace (Block.strip style lines) := by
  rw [Block.strip, Block.strip, Block.run_eq_flatMap, Block.run_eq_flatMap, readings_wrap unclosed,
    List.flatMap_assoc, replace, List.flatMap_assoc]
  exact List.flatMap_congr fun reading member =>
    stripLine_refill (closing_notMem_generate unclosed member)

theorem strip_wrapAll {edits : List Edit}
    (unclosed : Along style (fun edit lines => style.closing ∉ edit.generated style lines)
      edits lines) :
    Block.strip style (wrapAll style edits lines) = replaceAll edits (Block.strip style lines) := by
  induction edits generalizing lines with
  | nil => rfl
  | cons edit edits ih =>
      have rest := ih unclosed.2
      rw [strip_wrap unclosed.1] at rest
      exact rest

theorem strip_unopened (unopened : style.opening ∉ lines) : Block.strip style lines = lines := by
  rw [Block.strip, Block.run_eq_flatMap, Block.readings_outside unopened, List.flatMap_map]
  have passed : ∀ line ∈ lines, (stripLine style .outside line).2 = [line] := by
    intro line member
    have plain : line ≠ style.opening := fun opens => unopened (opens ▸ member)
    simp [stripLine, plain]
  rw [List.flatMap_congr passed, List.flatMap_singleton']

end Edit

/-! ## Plans -/

theorem Template.replaceAll_replaceEdits (template : Template) {values : Values}
    (noRepository : values.agpRepository = "") (lines : List String) :
    Edit.replaceAll (template.replaceEdits values) lines =
      Edit.replaceAll (template.wrapEdits values) lines := by
  cases template with
  | settings =>
      -- A release puts the repository on a line of its own, which goes away where there is none.
      have same : (Edit.line "$AGP_REPOSITORY" "").replace =
          (Edit.inline "$AGP_REPOSITORY" "").replace := by
        funext lines
        simp [Edit.replace, Edit.line, Edit.marker, Edit.generate]
      simp [Edit.replaceAll, replaceEdits, wrapEdits, noRepository, same]
  | build => rfl
  | catalog => rfl
  | wrapper => rfl

/-- What the placeholders of a recipe stand for at its least release, without a repository for the
plugin. -/
def Descriptor.leastValues (descriptor : Descriptor) (context : Context) (companions : Companions) :
    Values where
  agp := Mode.inQuotes descriptor.minimum.text
  kotlin := Mode.inQuotes companions.kotlin
  compileSdk := context.config.compileSdk
  minimumSdk := context.config.minimumSdk
  agpRepository := ""
  pluginRepositories := publicPluginRepositories
  dependencyRepositories := publicDependencyRepositories
  gradleLocation := gradleUrl companions.gradle

section Least

variable {descriptor : Descriptor} {context : Context} {companions : Companions}

theorem workingCopy_plan (mapped : context.table.get? descriptor.minimum.line = some companions) :
    Mode.workingCopy.plan descriptor context =
      .ok (.wrap (descriptor.leastValues context companions)) := by
  simp only [Mode.plan, Context.companions, mapped]
  rfl

theorem resolve_minimum (mapped : context.table.get? descriptor.minimum.line = some companions)
    (noGradlePath : context.config.gradlePath = none) :
    Target.resolve descriptor.minimum none context =
      .ok (Target.online descriptor.minimum companions.gradle context) := by
  simp [Target.resolve, noGradlePath, Context.gradleVersion, Context.companions, mapped, Except.map]

theorem release_plan (mapped : context.table.get? descriptor.minimum.line = some companions)
    (noRepository : context.config.repository = none) :
    (Mode.release (Target.online descriptor.minimum companions.gradle context)).plan descriptor
      context = .ok (.replace (descriptor.leastValues context companions)) := by
  simp only [Mode.plan, Target.online, Context.companions, mapped, noRepository]
  rfl

end Least

theorem strip_workingCopy (descriptor : Descriptor) (context : Context) (companions : Companions)
    (mapped : context.table.get? descriptor.minimum.line = some companions)
    (noRepository : context.config.repository = none)
    (noGradlePath : context.config.gradlePath = none) :
    ∃ target values,
      Target.resolve descriptor.minimum none context = .ok target ∧
      Mode.workingCopy.plan descriptor context = .ok (.wrap values) ∧
      (Mode.release target).plan descriptor context = .ok (.replace values) ∧
      ∀ template : Template, ∀ lines : List String, template.style.opening ∉ lines →
        Edit.Along template.style
          (fun edit lines => template.style.closing ∉ edit.generated template.style lines)
          (template.wrapEdits values) lines →
        Block.strip template.style ((Plan.wrap values).apply template lines) =
          (Plan.replace values).apply template lines := by
  refine ⟨Target.online descriptor.minimum companions.gradle context,
    descriptor.leastValues context companions, resolve_minimum mapped noGradlePath,
    workingCopy_plan mapped, release_plan mapped noRepository, ?_⟩
  intro template lines unopened unclosed
  have stripped := Edit.strip_wrapAll unclosed
  rw [Edit.strip_unopened unopened, ← template.replaceAll_replaceEdits rfl] at stripped
  exact stripped

def singleLineContext : Context := ⟨{}, OrderedMap.empty.insert ⟨8, 1⟩ ⟨"8.0", "1.9.0"⟩⟩

def singleLineRecipe : Descriptor :=
  ⟨"recipe", "Recipe", "recipe", ⟨8, 1, 0, .final, 0⟩, none, [], none, []⟩

theorem strip_workingCopy_sharedLine :
    ∃ target values,
      Target.resolve singleLineRecipe.minimum none singleLineContext = .ok target ∧
      Mode.workingCopy.plan singleLineRecipe singleLineContext = .ok (.wrap values) ∧
      (Mode.release target).plan singleLineRecipe singleLineContext = .ok (.replace values) ∧
      Block.strip .gradle ((Plan.wrap values).apply .build
        ["plugins", "    agp $AGP_VERSION, kotlin $KOTLIN_VERSION", "end"]) =
      (Plan.replace values).apply .build
        ["plugins", "    agp $AGP_VERSION, kotlin $KOTLIN_VERSION", "end"] := by
  have mapped : singleLineContext.table.get? singleLineRecipe.minimum.line =
      some ⟨"8.0", "1.9.0"⟩ := by decide +kernel
  obtain ⟨target, values, resolved, copied, released, alike⟩ :=
    strip_workingCopy singleLineRecipe singleLineContext _ mapped rfl rfl
  refine ⟨target, values, resolved, copied, released, alike .build _ (by decide +kernel) ?_⟩
  rw [workingCopy_plan mapped] at copied
  injection copied with copied
  injection copied with copied
  rw [← copied]
  decide +kernel

end Cookbook
