import Cookbook.CommandLine.Trouble
import Cookbook.Convert.Batch
import Cookbook.Validate.Internal

/-!
Carrying out what the user asks for, and the exit code that tells how it went: 0 if all went well,
2 if some recipes of a batch failed or the command line was rejected, 1 if the command failed.
-/

namespace Cookbook.CommandLine

abbrev Command := EStateM Trouble Session

/-- How a command that did not fail was completed. -/
inductive Status
  | complete
  /-- Some recipes of a batch failed; the others were converted. -/
  | someFailed
deriving DecidableEq, Repr

def Status.exitCode : Status → Nat
  | complete => 0
  | someFailed => 2

namespace Command

/-- Does the action and says what a failure means for the command. -/
def doing {α : Type} (trouble : Failure → Trouble) (action : Action α) : Command α := fun session =>
  match action session with
  | .ok value session => .ok value session
  | .error failure session => .error (trouble failure) session

def line (text : String) : Command Unit :=
  modify fun session => { session with printed := session.printed ++ text ++ "\n" }

def readRelease : Option String → Command (Option Release)
  | none => return none
  | some text => match Release.read text with
    | .ok release => return some release
    | .error cause => throw (.malformedRelease text cause)

def load (config : Config) : Command Context := doing .notLoaded (Context.load config)

end Command

/-! ## Converting -/

namespace ConvertRequest

/-- The mode with all that is needed for it. -/
def resolveMode (request : ConvertRequest) (release : Option Release) (context : Context) :
    Command Mode :=
  match request.mode, release with
  | .source, _ => return .source
  | .workingCopy, _ => return .workingCopy
  | .release, none => throw .noRelease
  | .release, some release => match Target.resolve release request.gradleVersion context with
    | .ok target => return .release target
    | .error cause => throw (.notResolved release cause)

/-- Converts one recipe. A release that the recipe does not support is a failure. -/
def convertRecipe (converter : Converter) (source destination : Path) : Command Status := do
  let conversion ← Command.doing (.notConverted source) do
    Action.ofExcept ((← converter.convert source destination).require converter.mode)
  Command.line ("Converted " ++ source.text ++ " to " ++ conversion.destination.text)
  return .complete

/-- Sees to it that all that is in the destination is hidden. -/
def clearDestination (overwrite : Bool) (destination : Path) : Command Unit := do
  if !(← Command.doing .notLookedInto
      (Action.look destination fun disk => isEmptyFolder disk destination true)) then
    if !overwrite then throw (.destinationNotEmpty destination)
    Command.doing (.notCleared destination) (clearFolder destination)

def report (batch : Batch) (destination : Path) : List String :=
  ("Converted " ++ toString batch.converted.length ++ " recipe(s), skipped " ++
    toString batch.skipped.length ++ ", failed " ++ toString batch.failed.length) ::
  batch.failed.map (fun (name, failure) => "  [FAILED] " ++ name ++ ": " ++ failure.message) ++
  ["Index written to " ++ (Batch.indexPath destination).text]

def convertAll (request : ConvertRequest) (converter : Converter) (source : Path) :
    Command Status := do
  clearDestination request.overwrite request.destination
  let batch ← Command.doing (.batchNotConverted source)
    (converter.convertAll source request.destination)
  (report batch request.destination).forM Command.line
  return if batch.hasFailures then .someFailed else .complete

def run (request : ConvertRequest) (config : Config) : Command Status := do
  if !(← get).disk.isFolder request.destination then throw (.noDestination request.destination)
  let release ← Command.readRelease request.release
  let context ← Command.load config
  let mode ← request.resolveMode release context
  let converter : Converter := { mode, context, overwrite := request.overwrite }
  match request.selection with
  | .recipe source => convertRecipe converter source request.destination
  | .allBelow source => request.convertAll converter source

end ConvertRequest

/-! ## Validating -/

namespace ValidateRequest

/-- Validates a working copy, which must be a single one. -/
def runWorkingCopy (request : ValidateRequest) (validator : Validator) : Command Unit := do
  match request.selection with
  | some (.recipe source) =>
      Command.doing (.notValidated source) (validator.validateWorkingCopy source)
      Command.line ("Validated working copy " ++ source.text)
  | some (.allBelow _) | none => throw .noWorkingCopy

/-- Validates recipes as they are. All recipes are validated internally if the release, the repository
and the Gradle distribution are given. -/
def runRecipes (request : ValidateRequest) (validator : Validator) : Command Unit := do
  let config := validator.context.config
  let isInternal := config.repository.isSome && config.gradlePath.isSome
  match request.selection, validator.release with
  | none, _ => throw .noSelection
  | some (.recipe source), _ =>
      Command.doing (.notValidated source) (validator.validate source)
      Command.line ("Validated " ++ source.text)
  | some (.allBelow root), release =>
      match if isInternal then release else none with
      | some release =>
          let count ← Command.doing (.notValidated root)
            (validator.validateInternally release root request.folder)
          Command.line ("Validated " ++ toString count ++ " recipe(s) with AGP " ++ release.text)
      | none =>
          let count ← Command.doing (.notValidated root) (validator.validateAll root)
          Command.line ("Validated " ++ toString count ++ " recipe(s)")

def run (request : ValidateRequest) (config : Config) (gradle : Gradle.Behaviour) :
    Command Status := do
  let release ← Command.readRelease request.release
  let context ← Command.load config
  let validator : Validator := { context, gradle, release }
  match request.mode with
  | some .workingCopy => request.runWorkingCopy validator
  | some mode => throw (.modeNotValidated mode)
  | none => request.runRecipes validator
  return .complete

end ValidateRequest

/-! ## Command lines -/

/-- What a process leaves behind. -/
structure Finish where
  exitCode : Nat
  printed : String
  complained : String
  disk : Disk

def versionText : String := "recipe-converter 0.1.0\n"

def helpText : String :=
  "Convert and validate Android Gradle Plugin recipes\n\nUsage: recipe-converter [OPTIONS] <COMMAND>\n"

def Request.run (request : Request) (gradle : Gradle.Behaviour) : Command Status :=
  match request.work with
  | .convert work => work.run request.config
  | .validate work => work.run request.config gradle

/-- What happens when the command line asks for no work. -/
def Stop.finish (stop : Stop) (disk : Disk) : Finish :=
  match stop with
  | .help => ⟨0, helpText, "", disk⟩
  | .version => ⟨0, versionText, "", disk⟩
  | .nothing => ⟨2, "", helpText, disk⟩
  | .rejected rejection => ⟨2, "", "error: " ++ rejection.message ++ "\n", disk⟩

/-- The disk with the folder for scratch folders that a variable names. -/
def withScratchHome (environment : List (String × String)) (disk : Disk) : Disk :=
  match environment.lookup "TMPDIR" with
  | some home => { disk with scratchHome := ⟨home⟩ }
  | none => disk

def run (gradle : Gradle.Behaviour) (environment : List (String × String))
    (arguments : List String) (disk : Disk) : Finish :=
  match Request.read environment arguments with
  | .error stop => stop.finish disk
  | .ok request =>
      match request.run gradle { disk := withScratchHome environment disk } with
      | .ok status session => ⟨status.exitCode, session.printed, session.complained, session.disk⟩
      | .error trouble session =>
          ⟨1, session.printed, session.complained ++ "Error: " ++ trouble.message ++ "\n",
            session.disk⟩

end Cookbook.CommandLine
