import Cookbook.Convert.Conversion
import Cookbook.Gradle.Executor

/-!
Validating recipes: they are converted for a release into a folder of their own, where Gradle runs
the tasks that their descriptors name. A recipe is validated at the least and the greatest release it
supports, or at one that is asked for.
-/

namespace Cookbook

structure Validator where
  context : Context
  gradle : Gradle.Behaviour
  /-- The release to validate at, in place of the bounds. -/
  release : Option Release := none

namespace Validator

/-- Runs the tasks of a converted recipe, then its validation tasks. -/
def build (validator : Validator) (conversion : Conversion) : Action Unit :=
  Gradle.withExecutor validator.gradle validator.context conversion.destination fun executor => do
    executor.execute conversion.descriptor.tasks
    executor.execute (conversion.descriptor.validationTasks.getD [])

/-- Builds the recipe in a folder at a release, unless the recipe does not support it. -/
def validateAt (validator : Validator) (recipe : Path) (release : Release) : Action Unit := do
  let gradle ← Action.ofExcept (validator.context.gradleVersion release.line)
  let target ← Action.ofExcept (Target.resolve release (some gradle) validator.context)
  let converter : Converter := { mode := .release target, context := validator.context }
  Action.withScratch fun scratch => do
    let conversion ← converter.convert recipe scratch
    if conversion.succeeded then validator.build conversion

def greatest (validator : Validator) (descriptor : Descriptor) : Action Release :=
  match descriptor.maximum with
  | some line => validator.context.publishedRelease line
  | none => validator.context.greatestRelease

def validate (validator : Validator) (recipe : Path) : Action Unit := do
  let descriptor ← Descriptor.load recipe validator.context
  match validator.release with
  | some release => validator.validateAt recipe release
  | none =>
      validator.validateAt recipe descriptor.minimum
      let greatest ← validator.greatest descriptor
      if greatest ≠ descriptor.minimum then validator.validateAt recipe greatest

/-- Validates all recipes below a folder up to the first that fails, and counts them. -/
def validateAll (validator : Validator) (root : Path) : Action Nat := do
  let recipes ← Action.ofExcept (findRecipes (← get).disk root)
  recipes.forM validator.validate
  return recipes.length

/-- Restores a working copy to its source and validates that. -/
def validateWorkingCopy (validator : Validator) (workingCopy : Path) : Action Unit :=
  Action.withScratch fun scratch => do
    let converter : Converter := { mode := .source, context := validator.context }
    let conversion ← converter.convert workingCopy scratch
    validator.validate conversion.destination

end Validator

end Cookbook
