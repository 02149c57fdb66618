import Cookbook.Failure

/-!
The settings of a run and the version table that goes with them.
-/

namespace Cookbook

structure Config where
  recipesRoot : Path := ⟨"."⟩
  /-- The version table; a file of the recipes' root if none is named. -/
  versionTable : Option Path := none
  /-- The Gradle wrapper that converted recipes get; a folder of the recipes' root if none is named. -/
  gradleResources : Option Path := none
  feed : Path := ⟨"maven-metadata.xml"⟩
  onCi : Bool := false
  /-- The repository that the plugin is taken from. -/
  repository : Option String := none
  /-- The Gradle distribution to use in place of a published one. -/
  gradlePath : Option String := none
  javaHome : Option Path := none
  androidHome : Option Path := none
  compileSdk : String := "34"
  minimumSdk : String := "21"
  /-- After how many milliseconds a Gradle run is ended. -/
  timeout : Option Nat := none
deriving DecidableEq, Repr

namespace Config

def versionTablePath (config : Config) : Path :=
  config.versionTable.getD (config.recipesRoot.joinName "version_mappings.txt")

def gradleResourcesPath (config : Config) : Path :=
  config.gradleResources.getD (config.recipesRoot.joinName "gradle-resources")

end Config

structure Context where
  config : Config
  table : VersionTable
deriving DecidableEq

namespace Context

def companions (context : Context) (line : ReleaseLine) : Except Failure Companions :=
  match context.table.get? line with
  | some companions => .ok companions
  | none => .error (.missingVersionMapping line)

def gradleVersion (context : Context) (line : ReleaseLine) : Except Failure String :=
  (context.companions line).map (·.gradle)

def kotlinVersion (context : Context) (line : ReleaseLine) : Except Failure String :=
  (context.companions line).map (·.kotlin)

end Context

/-- The table in a text, or the first row that is none. -/
def VersionTable.read (content : String) : Except Failure VersionTable :=
  match parse content with
  | .ok table => .ok table
  | .error (line, flaw) => .error (.malformedVersionTable line flaw)

end Cookbook
