import Cookbook.Context
import Cookbook.Release

/-!
Releases as targets: which Gradle distribution a recipe is built with for a release, and where that
and the plugin come from.
-/

namespace Cookbook

/-- A release and where the things it is built with come from. -/
structure Target where
  release : Release
  gradleLocation : String
  /-- Empty to leave the line out. -/
  agpRepository : String
  pluginRepositories : List String
  dependencyRepositories : List String
deriving DecidableEq, Repr

/-- Where a published Gradle version is downloaded from. -/
def gradleUrl (version : String) : String :=
  -- The colon is escaped, as properties files ask.
  "https\\://services.gradle.org/distributions/gradle-" ++ version ++ "-bin.zip"

def publicPluginRepositories : List String :=
  ["        gradlePluginPortal()", "        google()", "        mavenCentral()"]

def publicDependencyRepositories : List String := ["        google()", "        mavenCentral()"]

namespace Target

/-- A target that takes everything from local places. -/
def localOnly (release : Release) (gradlePath repository : String) : Target where
  release
  gradleLocation := gradlePath
  agpRepository := repository
  pluginRepositories := []
  dependencyRepositories := []

/-- A target that downloads a published Gradle version. -/
def online (release : Release) (gradle : String) (context : Context) : Target where
  release
  gradleLocation := gradleUrl gradle
  agpRepository := context.config.repository.getD ""
  pluginRepositories := publicPluginRepositories
  dependencyRepositories := publicDependencyRepositories

/-- Finds out what a release is built with. If no Gradle version is asked for and the settings name a
Gradle distribution, only local places are used, and there must be a repository among them. -/
def resolve (release : Release) (gradle : Option String) (context : Context) :
    Except Failure Target :=
  match gradle, context.config.gradlePath with
  | some version, _ => .ok (online release version context)
  | none, some path => match context.config.repository with
      | some repository => .ok (localOnly release path repository)
      | none => .error (.invalidOptions .localGradleWithoutRepository)
  | none, none => match context.gradleVersion release.line with
      | .ok version => .ok (online release version context)
      | .error failure => .error failure

end Target

end Cookbook
