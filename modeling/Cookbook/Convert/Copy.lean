import Cookbook.Placeholder.Plan
import Cookbook.Session
import Cookbook.Sorting
import Cookbook.Text.Lines

/-!
Copying a recipe's folder through a plan, and copying the Gradle wrapper to it. Both go down a folder
one level at a time and write while they read, so a target inside of the source is met again; the
limit on the length of paths ends that.
-/

namespace Cookbook

inductive Route
  | skip
  | fill (template : Template)
  | copy
deriving DecidableEq, Repr

namespace Route

def skippedFiles : List String := ["gradlew", "gradlew.bat", "local.properties"]

/-- Folders that builds and editors leave behind. -/
def skippedFolders : List String := ["build", ".idea", ".gradle", "out", "wrapper"]

def ofName (name : String) : Route :=
  if skippedFiles.contains name then skip
  else match name with
    | "build.gradle" | "build.gradle.kts" => fill .build
    | "settings.gradle" | "settings.gradle.kts" => fill .settings
    | "libs.versions.toml" | "build.libs.versions.toml" => fill .catalog
    | _ => copy

end Route

namespace Copy

/-- Writes the lines that a plan makes of a file, each ended by one line feed. -/
def fillFile (plan : Plan) (template : Template) (source target : Path) : Action Unit := do
  let content ← Action.readText source
  Action.writeText target (Text.unlines (plan.apply template (Text.lines content)))

/-- Copies a file as it is. What goes wrong is put down to the source. -/
def copyFile (source target : Path) : Action Unit :=
  Action.change source (·.copyFile source target)

def recipeFile (plan : Plan) (name : String) (source target : Path) : Action Unit :=
  match Route.ofName name with
  | .skip => return
  | .fill template => fillFile plan template source target
  | .copy => copyFile source target

/-- Copies a folder through the plan, in the order of the names. -/
def recipeFolder (plan : Plan) : Nat → Path → Path → Action Unit
  | 0, source, _ => throw (.io source .nameTooLong)
  | depth + 1, source, target => do
      -- A target right in the source is not among the entries if it is made only now.
      let tree ← Action.look source (·.list source)
      Action.createFolders target
      (sortBy (fun first second => first.1 ≤ second.1) tree.entries).forM fun (name, entry) =>
        if entry.isFolder then
          if Route.skippedFolders.contains name then return
          else recipeFolder plan depth (source.joinName name) (target.joinName name)
        else recipeFile plan name (source.joinName name) (target.joinName name)

/-- Copies a folder as it is, in the order in which the disk lists it. -/
def wholeFolder : Nat → Path → Path → Action Unit
  | 0, source, _ => throw (.io source .nameTooLong)
  | depth + 1, source, target => do
      -- Here the target is made before that, and is among the entries if it is right in the source.
      Action.createFolders target
      let tree ← Action.look source (·.list source)
      tree.entries.forM fun (name, entry) =>
        if entry.isFolder then wholeFolder depth (source.joinName name) (target.joinName name)
        else copyFile (source.joinName name) (target.joinName name)

/-- How deep a folder can be below another if its path can be used. -/
def depthLimit : Action Nat := return (← get).disk.pathLimit

/-- The destination as messages name it, with a slash at its end. -/
def rootTarget (destination : Path) : Path := destination.joinName ""

def recipe (plan : Plan) (source destination : Path) : Action Unit := do
  recipeFolder plan (← depthLimit) source (rootTarget destination)

def whole (source destination : Path) : Action Unit := do
  wholeFolder (← depthLimit) source (rootTarget destination)

end Copy

end Cookbook
