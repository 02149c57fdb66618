import Cookbook.Validate.Bounds

/-!
Validating all recipes against a plugin that is built locally: the repository and the Gradle
distribution of the settings take the place of public ones.
-/

namespace Cookbook.Validator

/-- Converts a recipe and builds it, if it supports the release of the converter. Says whether it
does. -/
def validateInto (validator : Validator) (converter : Converter) (destination recipe : Path) :
    Action Bool := do
  let conversion ← converter.convert recipe destination
  if conversion.succeeded then validator.build conversion
  return conversion.succeeded

/-- Validates recipes one after another and counts those that support the release. -/
def countInto (validator : Validator) (converter : Converter) (destination : Path) :
    List Path → Action Nat
  | [] => return 0
  | recipe :: recipes => do
      let supported ← validator.validateInto converter destination recipe
      let count ← validator.countInto converter destination recipes
      return if supported then count + 1 else count

/-- Validates all recipes below a folder at one release, in a given folder or in one that is made for
it, and counts those that support the release. -/
def validateInternally (validator : Validator) (release : Release) (root : Path)
    (folder : Option Path) : Action Nat := do
  if validator.context.config.gradlePath.isNone then
    throw (.invalidOptions .internalRunWithoutGradle)
  let target ← Action.ofExcept (Target.resolve release none validator.context)
  let converter : Converter :=
    { mode := .release target, context := validator.context, overwrite := true }
  let validateIn (destination : Path) : Action Nat := do
    let recipes ← Action.ofExcept (findRecipes (← get).disk root)
    validator.countInto converter destination recipes
  match folder with
  | some destination => validateIn destination
  | none => Action.withScratch validateIn

end Cookbook.Validator
