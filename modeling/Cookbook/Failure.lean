import Cookbook.Disk.Fault
import Cookbook.Markup.Flaw
import Cookbook.Path
import Cookbook.Text.Quoted
import Cookbook.Toml.Document
import Cookbook.VersionTable

/-!
Everything that can go wrong in reading, converting and validating recipes, by cause, and the words
for it.
-/

namespace Cookbook

inductive DescriptorFlaw
  | toml (fault : Toml.Fault)
  | noMinimum
  | malformedMinimum (text : String)
  | malformedMaximum (text : String)
  | crowdedKeyword (keyword : String)
deriving DecidableEq, Repr

inductive OptionsFlaw
  | localGradleWithoutRepository
  | internalRunWithoutGradle
deriving DecidableEq, Repr

/-- How a Gradle run went wrong. A run that a signal ended has no exit code. -/
inductive Mishap
  | failed (tasks : List String) (project : Path) (exitCode : Option Nat)
  | timedOut (seconds : Nat) (project : Path)
  | notStarted (fault : DiskFault)
deriving DecidableEq, Repr

inductive Failure
  | malformedVersion (text : String)
  | malformedLine (query : String)
  | missingDescriptor (path : Path)
  | malformedDescriptor (path : Path) (flaw : DescriptorFlaw)
  | unresolvedMinimum (path : Path) (minimum : String) (cause : Failure)
  | invalidDestination (value : String) (recipe : Path)
  | notAFolder (path : Path)
  | destinationNotEmpty (path : Path)
  | nonCompliantRecipe (recipe version : String)
  | malformedFeed (flaw : Markup.Flaw)
  | malformedVersionTable (line : Nat) (flaw : VersionTable.Flaw)
  | missingVersionMapping (line : ReleaseLine)
  /-- No release is published for the line, or for any mapped line at all. -/
  | missingPublishedRelease (line : Option ReleaseLine)
  | missingFile (path : Path)
  | invalidOptions (flaw : OptionsFlaw)
  | taskExecution (mishap : Mishap)
  | io (path : Path) (fault : DiskFault)
deriving DecidableEq, Repr

def DescriptorFlaw.message : DescriptorFlaw → String
  | toml fault => fault.message
  | noMinimum => "did not find mandatory 'agpVersion.min'"
  | malformedMinimum text =>
      "invalid 'agpVersion.min': Unable to parse AGP version '" ++ text ++ "'"
  | malformedMaximum text => "invalid 'agpVersion.max' (" ++ text ++ "), expected \"X.Y\""
  | crowdedKeyword keyword =>
      "index entries should contain at most one '/' character: " ++ keyword

def OptionsFlaw.message : OptionsFlaw → String
  | localGradleWithoutRepository =>
      "a repository location is required when using a local Gradle path"
  | internalRunWithoutGradle => "internal CI validation requires a Gradle path"

def Mishap.message : Mishap → String
  | failed tasks project exitCode =>
      Text.quotedList tasks ++ " failed in " ++ project.text ++ " with exit code " ++
        (match exitCode with
          | some code => toString code
          | none => "-1")
  | timedOut seconds project =>
      "Gradle timed out after " ++ toString seconds ++ " seconds in " ++ project.text
  | notStarted fault => "Failed to start Gradle: " ++ fault.numbered

def Failure.message : Failure → String
  | malformedVersion text => "Unable to parse AGP version '" ++ text ++ "'"
  | malformedLine query =>
      "Unable to parse AGP version '" ++ query ++
        " (must be formatted as \"X.Y\", where X and Y are positive whole numbers)'"
  | missingDescriptor path => "Missing recipe descriptor at " ++ path.text
  | malformedDescriptor path flaw =>
      "Malformed recipe descriptor " ++ path.text ++ ": " ++ flaw.message
  | unresolvedMinimum path minimum cause =>
      "Malformed recipe descriptor " ++ path.text ++
        ": unable to resolve 'agpVersion.min' (" ++ minimum ++ "): " ++ cause.message
  | invalidDestination value recipe =>
      "destinationFolder value ('" ++ value ++ "') cannot contain a path separator (" ++
        recipe.text ++ ")"
  | notAFolder path => path.text ++ " is not a directory"
  | destinationNotEmpty path =>
      "Destination " ++ path.text ++ " is not empty, use --overwrite to overwrite it"
  | nonCompliantRecipe recipe version =>
      "Recipe " ++ recipe ++ " is not compliant with AGP " ++ version
  | malformedFeed flaw => "Malformed release metadata feed: " ++ flaw.message
  | malformedVersionTable line flaw =>
      "Malformed version mapping (line " ++ toString line ++ "): " ++ flaw.message
  | missingVersionMapping line =>
      "No version mapping for AGP " ++ line.text ++
        ", make sure it's present in version_mappings.txt"
  | missingPublishedRelease line =>
      "Unable to find a published AGP version for " ++
        (match line with
          | some line => line.text
          | none => "any mapped AGP version")
  | missingFile path => "Missing file: " ++ path.text
  | invalidOptions flaw => "Invalid options: " ++ flaw.message
  | taskExecution mishap => "Gradle task execution failed: " ++ mishap.message
  | io path fault => "I/O error on " ++ path.text ++ ": " ++ fault.numbered

end Cookbook
