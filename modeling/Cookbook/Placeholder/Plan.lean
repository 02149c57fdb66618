import Cookbook.Placeholder.Edit

/-!
Plans: what a conversion does to the lines of the files that hold placeholders.
-/

namespace Cookbook

/-- What the placeholders of a recipe stand for. Versions are quoted, SDK levels are not. -/
structure Values where
  agp : String
  kotlin : String
  compileSdk : String
  minimumSdk : String
  /-- Empty to leave the line out. -/
  agpRepository : String
  pluginRepositories : List String
  dependencyRepositories : List String
  gradleLocation : String
deriving DecidableEq, Repr

inductive Plan
  | unwrap
  | wrap (values : Values)
  | replace (values : Values)
deriving DecidableEq, Repr

inductive Template
  | build
  | settings
  | catalog
  | wrapper
deriving DecidableEq, Repr

namespace Template

def style : Template → CommentStyle
  | build | settings => .gradle
  | catalog | wrapper => .properties

/-- The edits that fill in a file so that it can be restored. -/
def wrapEdits : Template → Values → List Edit
  | build, values =>
      [.inline "$AGP_VERSION" values.agp, .inline "$KOTLIN_VERSION" values.kotlin,
        .inline "$COMPILE_SDK" values.compileSdk, .inline "$MINIMUM_SDK" values.minimumSdk]
  | settings, values =>
      [.inline "$AGP_REPOSITORY" values.agpRepository,
        .lines "$PLUGIN_REPOSITORIES" values.pluginRepositories,
        .lines "$DEPENDENCY_REPOSITORIES" values.dependencyRepositories]
  | catalog, values =>
      [.inline "$AGP_VERSION" values.agp, .inline "$KOTLIN_VERSION" values.kotlin]
  | wrapper, values => [.inline "$GRADLE_LOCATION" values.gradleLocation]

/-- The edits that fill in a file for good. Here the repository of the plugin takes a whole line. -/
def replaceEdits : Template → Values → List Edit
  | settings, values =>
      [.line "$AGP_REPOSITORY" values.agpRepository,
        .lines "$PLUGIN_REPOSITORIES" values.pluginRepositories,
        .lines "$DEPENDENCY_REPOSITORIES" values.dependencyRepositories]
  | template, values => template.wrapEdits values

end Template

/-- Carries out the plan on the lines of one file. -/
def Plan.apply (plan : Plan) (template : Template) (lines : List String) : List String :=
  match plan with
  | unwrap => Block.unwrap template.style lines
  | wrap values =>
      (template.wrapEdits values).foldl (fun lines edit => edit.wrap template.style lines) lines
  | replace values =>
      (template.replaceEdits values).foldl (fun lines edit => edit.replace lines) lines

end Cookbook
