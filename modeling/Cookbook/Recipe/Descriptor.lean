import Cookbook.Feed
import Cookbook.Recipe.Keyword
import Cookbook.Recipe.Metadata

/-!
Recipe descriptors: checked metadata with the releases a recipe supports. The least one is a release
of its own; the greatest is a whole line.
-/

namespace Cookbook

structure Descriptor where
  folderName : String
  title : String
  /-- The name of the folder that releases of the recipe are written to. -/
  destination : String
  minimum : Release
  maximum : Option ReleaseLine
  tasks : List String
  validationTasks : Option (List String)
  keywords : List String
deriving DecidableEq, Repr

namespace Descriptor

def fileName : String := "recipe_metadata.toml"

/-- The least supported release as metadata give it: a line stands for its latest release. -/
inductive Minimum
  | latestOf (text : String) (line : ReleaseLine)
  | exactly (release : Release)
deriving DecidableEq, Repr

def Minimum.read (path : Path) (metadata : Metadata) : Except Failure Minimum :=
  match metadata.minimum.bind Text.nonBlank? with
  | none => .error (.malformedDescriptor path .noMinimum)
  | some text => match ReleaseLine.parse? text, Release.parse? text with
    | some line, _ => .ok (.latestOf text line)
    | none, some release => .ok (.exactly release)
    | none, none => .error (.malformedDescriptor path (.malformedMinimum text))

def Minimum.resolve (path : Path) (lookup : ReleaseLine → Except Failure Release) :
    Minimum → Except Failure Release
  | .exactly release => .ok release
  | .latestOf text line => match lookup line with
    | .ok release => .ok release
    | .error cause => .error (.unresolvedMinimum path text cause)

def readMaximum (path : Path) (metadata : Metadata) : Except Failure (Option ReleaseLine) :=
  match metadata.maximum.bind Text.nonBlank? with
  | none => .ok none
  | some text => match ReleaseLine.parse? text with
    | some line => .ok (some line)
    | none => .error (.malformedDescriptor path (.malformedMaximum text))

/-- The destination folder, which is the recipe's own name if none is given. -/
def readDestination (folderName : String) (path : Path) (metadata : Metadata) :
    Except Failure String :=
  match metadata.destination.bind Text.nonBlank? with
  | none => .ok folderName
  | some value =>
      if value.toList.any fun c => c = '/' || c = '\\' then
        .error (.invalidDestination value (path.parent?.getD path))
      else .ok value

def checkKeywords (path : Path) (metadata : Metadata) : Except Failure Unit :=
  match metadata.keywords.find? fun keyword => (Keyword.parse? keyword).isNone with
  | some keyword => .error (.malformedDescriptor path (.crowdedKeyword keyword))
  | none => .ok ()

def readMetadata (path : Path) (content : String) : Except Failure Metadata :=
  match Metadata.read content with
  | .ok metadata => .ok metadata
  | .error fault => .error (.malformedDescriptor path (.toml fault))

/-- The descriptor of a recipe with the given folder name. The path is that of the metadata file, for
messages. -/
def parse (content folderName : String) (path : Path)
    (lookup : ReleaseLine → Except Failure Release) : Except Failure Descriptor := do
  let metadata ← readMetadata path content
  let minimum ← (← Minimum.read path metadata).resolve path lookup
  let maximum ← readMaximum path metadata
  let destination ← readDestination folderName path metadata
  checkKeywords path metadata
  return {
    folderName, destination, minimum, maximum
    title := (metadata.title.bind Text.nonBlank?).getD folderName
    tasks := metadata.tasks
    validationTasks := metadata.validationTasks
    keywords := metadata.keywords }

/-- The line whose latest release is needed to parse the content. -/
def lineToResolve? (content : String) : Option ReleaseLine :=
  match (readMetadata ⟨""⟩ content).bind (Minimum.read ⟨""⟩) with
  | .ok (.latestOf _ line) => some line
  | _ => none

def supports (descriptor : Descriptor) (release : Release) : Bool :=
  (compare descriptor.minimum release).isLE &&
    descriptor.maximum.all fun maximum => (compare release.line maximum).isLE

end Descriptor

end Cookbook
