import Cookbook.Placeholder.Plan
import Cookbook.Recipe.Descriptor
import Cookbook.Target

/-!
The forms a recipe is converted to. As source its placeholders are restored; as a working copy they
are filled in for the recipe's least release and kept in comments; for a release they are filled in
for good, which asks that the recipe supports it.
-/

namespace Cookbook

inductive Mode
  | source
  | workingCopy
  | release (target : Target)
deriving DecidableEq, Repr

namespace Mode

def target? : Mode → Option Target
  | release target => some target
  | source | workingCopy => none

def isSource : Mode → Bool
  | source => true
  | workingCopy | release _ => false

def text : Mode → String
  | source => "source"
  | workingCopy => "working copy"
  | release target => "release " ++ target.release.text

def accepts (mode : Mode) (descriptor : Descriptor) : Bool :=
  match mode with
  | source | workingCopy => true
  | release target => descriptor.supports target.release

/-- The name of the folder that the recipe is written to. Only releases go to the destination that
the recipe asks for. -/
def destinationName (mode : Mode) (descriptor : Descriptor) : String :=
  match mode with
  | source | workingCopy => descriptor.folderName
  | release _ => descriptor.destination

def inQuotes (text : String) : String := "\"" ++ text ++ "\""

def plan (mode : Mode) (descriptor : Descriptor) (context : Context) : Except Failure Plan :=
  match mode with
  | source => .ok .unwrap
  | workingCopy => do
      let companions ← context.companions descriptor.minimum.line
      return .wrap {
        agp := inQuotes descriptor.minimum.text
        kotlin := inQuotes companions.kotlin
        compileSdk := context.config.compileSdk
        minimumSdk := context.config.minimumSdk
        agpRepository := ""
        pluginRepositories := publicPluginRepositories
        dependencyRepositories := publicDependencyRepositories
        gradleLocation := gradleUrl companions.gradle }
  | release target => do
      let companions ← context.companions target.release.line
      return .replace {
        agp := inQuotes target.release.text
        kotlin := inQuotes companions.kotlin
        compileSdk := context.config.compileSdk
        minimumSdk := context.config.minimumSdk
        agpRepository := target.agpRepository
        pluginRepositories := target.pluginRepositories
        dependencyRepositories := target.dependencyRepositories
        gradleLocation := target.gradleLocation }

end Mode

end Cookbook
