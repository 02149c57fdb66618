import Cookbook.Convert.Copy
import Cookbook.Convert.Folder
import Cookbook.Convert.Mode
import Cookbook.Recipe.Load

/-!
Converting one recipe: its folder is copied through the plan of a mode into a folder of the
destination, and gets a Gradle wrapper unless it is converted to source.
-/

namespace Cookbook

structure Converter where
  mode : Mode
  context : Context
  /-- Whether what the recipe's destination holds is deleted first, hidden entries excepted. -/
  overwrite : Bool := false
  withWrapper : Bool := true

inductive Outcome
  | converted
  /-- The recipe does not support the release, and no file of it was copied. -/
  | nonCompliant
deriving DecidableEq, Repr

structure Conversion where
  descriptor : Descriptor
  /-- The folder that the recipe is written to, or would have been. -/
  destination : Path
  outcome : Outcome
deriving DecidableEq, Repr

namespace Conversion

def succeeded (conversion : Conversion) : Bool := conversion.outcome = .converted

/-- The conversion, if the recipe was converted in the mode. -/
def require (conversion : Conversion) (mode : Mode) : Except Failure Conversion :=
  match conversion.outcome with
  | .converted => .ok conversion
  | .nonCompliant =>
      let version := match mode.target? with
        | some target => target.release.text
        | none => mode.text
      .error (.nonCompliantRecipe conversion.descriptor.folderName version)

end Conversion

namespace Converter

def wrapperProperties : Path := ⟨"gradle/wrapper/gradle-wrapper.properties"⟩

def wrapperScript : Path := ⟨"gradlew"⟩

/-- Copies the Gradle wrapper to a converted recipe, fills in where Gradle comes from and lets the
script be run. -/
def addWrapper (converter : Converter) (destination : Path) (plan : Plan) : Action Unit := do
  let resources := converter.context.config.gradleResourcesPath
  if !(← Action.isFolder resources) then throw (.missingFile resources)
  Copy.whole resources destination
  let properties := destination.join wrapperProperties
  if !(← Action.isFile properties) then throw (.missingFile (resources.join wrapperProperties))
  Copy.fillFile plan .wrapper properties properties
  let script := destination.join wrapperScript
  if ← Action.isFile script then Action.change script (·.setExecutable script true)

/-- Sees to it that a folder can be written to: it is absent or empty, or is made so. -/
def clearDestination (converter : Converter) (destination : Path) : Action Unit := do
  if ← Action.isFile destination then throw (.notAFolder destination)
  if ← Action.isFolder destination then
    if !(← Action.look destination fun disk => isEmptyFolder disk destination false) then
      if converter.overwrite then clearFolder destination
      else throw (.destinationNotEmpty destination)

/-- Converts the recipe in a folder into a folder of the destination. -/
def convert (converter : Converter) (source destination : Path) : Action Conversion := do
  if !(← Action.isFolder source) then throw (.notAFolder source)
  let descriptor ← Descriptor.load source converter.context
  let destination := destination.joinName (converter.mode.destinationName descriptor)
  converter.clearDestination destination
  -- The destination is cleared by now, also for a recipe that is not converted.
  if !converter.mode.accepts descriptor then
    return { descriptor, destination, outcome := .nonCompliant }
  let plan ← Action.ofExcept (converter.mode.plan descriptor converter.context)
  Copy.recipe plan source destination
  if converter.withWrapper && !converter.mode.isSource then
    converter.addWrapper destination plan
  return { descriptor, destination, outcome := .converted }

end Converter

end Cookbook
