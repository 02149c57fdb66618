import Cookbook.CommandLine.Switch
import Cookbook.Context

/-!
What the user asks for: converting or validating, with the settings for it. Some settings may be given
before or after the name of the command, and by variables of the environment.
-/

namespace Cookbook.CommandLine

inductive ModeName
  | source
  | workingCopy
  | release
deriving DecidableEq, Repr

namespace ModeName

def all : List (String × ModeName) :=
  [("source", source), ("working-copy", workingCopy), ("release", release)]

def text : ModeName → String
  | source => "Source"
  | workingCopy => "WorkingCopy"
  | release => "Release"

end ModeName

inductive Selection
  | recipe (folder : Path)
  | allBelow (root : Path)
deriving DecidableEq, Repr

structure ConvertRequest where
  selection : Selection
  destination : Path
  release : Option String
  mode : ModeName
  overwrite : Bool
  gradleVersion : Option String
deriving DecidableEq, Repr

structure ValidateRequest where
  selection : Option Selection
  release : Option String
  mode : Option ModeName
  /-- Where recipes are converted to, if they are validated internally. -/
  folder : Option Path
deriving DecidableEq, Repr

inductive Work
  | convert (request : ConvertRequest)
  | validate (request : ValidateRequest)
deriving DecidableEq, Repr

structure Request where
  config : Config
  work : Work
deriving DecidableEq, Repr

def Selection.path : Selection → Path
  | recipe folder => folder
  | allBelow root => root

def Request.paths (request : Request) : List Path :=
  [request.config.versionTablePath, request.config.gradleResourcesPath, request.config.feed] ++
  match request.work with
  | .convert work => [work.selection.path, work.destination]
  | .validate work => (work.selection.map (·.path)).toList ++ work.folder.toList

/-! ## Options -/

def help : Switch := ⟨"help", some 'h', .stop .help⟩

/-- Options before and after the name of the command, and the variables that stand in for them. -/
def everywhere : List Switch := [
  ⟨"recipes-root", none, .takes .path⟩, ⟨"maven-metadata", none, .takes .path⟩,
  ⟨"ci", none, .flag⟩, help]

def standIns : List (String × String) :=
  [("recipes-root", "RECIPES_ROOT"), ("maven-metadata", "RECIPES_MAVEN_METADATA")]

def modeValues : Values := .oneOf (ModeName.all.map (·.1))

def selectionSwitches : List Switch := [
  ⟨"source", some 's', .takes .path⟩, ⟨"source-all", none, .takes .path⟩,
  ⟨"agp-version", some 'a', .takes .any⟩, ⟨"mode", some 'm', .takes modeValues⟩,
  ⟨"repo-location", none, .takes .any⟩, ⟨"gradle-path", none, .takes .any⟩]

def topSwitches : List Switch := everywhere ++ [⟨"version", some 'V', .stop .version⟩]

def convertSwitches : List Switch := everywhere ++ selectionSwitches ++ [
  ⟨"destination", some 'd', .takes .path⟩, ⟨"overwrite", some 'o', .flag⟩,
  ⟨"gradle-version", none, .takes .any⟩]

def validateSwitches : List Switch := everywhere ++ selectionSwitches ++ [
  ⟨"java-home", none, .takes .path⟩, ⟨"android-home", none, .takes .path⟩,
  ⟨"tmp", none, .takes .path⟩, ⟨"timeout", none, .takes .number⟩]

/-! ## Reading requests -/

namespace Settings

def path? (settings : Settings) (name : String) : Option Path := (settings.lookup name).map (⟨·⟩)

def mode? (settings : Settings) : Option ModeName :=
  (settings.lookup "mode").bind fun name => ModeName.all.lookup name

/-- Adds the values that variables give for options that are not there. -/
def withStandIns (environment : List (String × String)) (settings : Settings) :
    Except Stop Settings :=
  standIns.foldlM (fun settings (name, label) =>
    match settings.has name, environment.lookup label with
    | false, some value => settings.putValue ⟨name, none, .takes .path⟩ value
    | _, _ => .ok settings) settings

def selection? (settings : Settings) : Except Stop (Option Selection) :=
  match settings.path? "source", settings.path? "source-all" with
  | some _, some _ => .error (.rejected (.conflict "source" "source-all"))
  | some folder, none => .ok (some (.recipe folder))
  | none, some root => .ok (some (.allBelow root))
  | none, none => .ok none

def required {α : Type} (name : String) : Option α → Except Stop α
  | some value => .ok value
  | none => .error (.rejected (.optionMissing name))

end Settings

def Config.ofSettings (settings : Settings) : Config :=
  let base : Config := {}
  { base with
    recipesRoot := (settings.path? "recipes-root").getD base.recipesRoot
    feed := (settings.path? "maven-metadata").getD base.feed
    onCi := settings.has "ci"
    repository := settings.lookup "repo-location"
    gradlePath := settings.lookup "gradle-path"
    javaHome := settings.path? "java-home"
    androidHome := settings.path? "android-home"
    timeout := ((settings.lookup "timeout").bind number?).map (· * 1000) }

def ConvertRequest.ofSettings (settings : Settings) : Except Stop ConvertRequest := do
  return {
    selection := ← Settings.required "source" (← settings.selection?)
    destination := ← Settings.required "destination" (settings.path? "destination")
    release := settings.lookup "agp-version"
    mode := settings.mode?.getD .release
    overwrite := settings.has "overwrite"
    gradleVersion := settings.lookup "gradle-version" }

def ValidateRequest.ofSettings (settings : Settings) : Except Stop ValidateRequest := do
  return {
    selection := ← settings.selection?
    release := settings.lookup "agp-version"
    mode := settings.mode?
    folder := settings.path? "tmp" }

namespace Request

/-- The options after the name of a command, with which nothing is left over. -/
def ownSettings (switches : List Switch) (arguments : List String) : Except Stop Settings := do
  match ← Settings.read switches [] none arguments with
  | (settings, []) => return settings
  | (_, extra :: _) => throw (.rejected (.unknown extra))

/-- The options of both places. What stands after the name of the command counts more than what stands
before it, and that more than a variable. A variable that stands in at either place must have a value
that can be used. -/
def allSettings (environment : List (String × String)) (top own : Settings) :
    Except Stop Settings := do
  let _ ← top.withStandIns environment
  let _ ← own.withStandIns environment
  Settings.withStandIns environment (own ++ top.filter fun (name, _) => !own.has name)

/-- The commands whose help can be asked for. -/
def readHelp : List String → Stop
  | [] => .help
  | ["convert"] | ["validate"] | ["help"] => .help
  | name :: _ => .rejected (.unknown name)

def read (environment : List (String × String)) (arguments : List String) : Except Stop Request := do
  let (top, rest) ← Settings.read topSwitches [] none arguments
  match rest with
  | "convert" :: rest => do
      let own ← ownSettings convertSwitches rest
      let request ← ConvertRequest.ofSettings own
      return ⟨Config.ofSettings (← allSettings environment top own), .convert request⟩
  | "validate" :: rest => do
      let own ← ownSettings validateSwitches rest
      let request ← ValidateRequest.ofSettings own
      return ⟨Config.ofSettings (← allSettings environment top own), .validate request⟩
  | "help" :: names => throw (readHelp names)
  | argument :: _ => throw (.rejected (.unknown argument))
  | [] =>
      if (← top.withStandIns environment).isEmpty then throw .nothing
      else throw (.rejected .commandMissing)

end Request

end Cookbook.CommandLine
