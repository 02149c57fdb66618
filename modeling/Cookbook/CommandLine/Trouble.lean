import Cookbook.CommandLine.Request
import Cookbook.Failure
import Cookbook.Release

/-!
Why a command fails, and the words for it: what the command was about to do, then the failure.
-/

namespace Cookbook

/-- The message of a failure for the user. Of a file operation the fault is told once more. -/
def Failure.report (failure : Failure) : String :=
  match failure with
  | io _ fault => failure.message ++ ": " ++ fault.numbered
  | _ => failure.message

namespace CommandLine

inductive Trouble
  | noDestination (folder : Path)
  | malformedRelease (text : String) (cause : Failure)
  | noRelease
  | notLoaded (cause : Failure)
  | notResolved (release : Release) (cause : Failure)
  | notConverted (source : Path) (cause : Failure)
  | notLookedInto (cause : Failure)
  | destinationNotEmpty (folder : Path)
  | notCleared (folder : Path) (cause : Failure)
  | batchNotConverted (source : Path) (cause : Failure)
  | noSelection
  | noWorkingCopy
  | modeNotValidated (mode : ModeName)
  | notValidated (source : Path) (cause : Failure)
deriving DecidableEq, Repr

def Trouble.message : Trouble → String
  | noDestination folder => "Destination " ++ folder.text ++ " does not exist or is not a folder"
  | malformedRelease text cause => "Invalid --agp-version '" ++ text ++ "': " ++ cause.report
  | noRelease => "--agp-version is required in release mode"
  | notLoaded cause => "Failed to load conversion context: " ++ cause.report
  | notResolved release cause =>
      "Unable to resolve release target for AGP " ++ release.text ++ ": " ++ cause.report
  | notConverted source cause => "Failed to convert " ++ source.text ++ ": " ++ cause.report
  | notLookedInto cause => cause.report
  | destinationNotEmpty folder =>
      "Destination " ++ folder.text ++ " is not empty, use --overwrite to overwrite it"
  | notCleared folder cause => "Failed to clear " ++ folder.text ++ ": " ++ cause.report
  | batchNotConverted source cause =>
      "Failed to convert recipes from " ++ source.text ++ ": " ++ cause.report
  | noSelection => "Either --source or --source-all must be specified"
  | noWorkingCopy => "--source is required to validate a working copy"
  | modeNotValidated mode =>
      "Validation does not support mode " ++ mode.text ++ ", only working-copy"
  | notValidated source cause => "Validation of " ++ source.text ++ " failed: " ++ cause.report

def Rejection.message : Rejection → String
  | unknown argument => "unexpected argument '" ++ argument ++ "' found"
  | repeated option => "the argument '--" ++ option ++ "' cannot be used multiple times"
  | valueMissing option => "a value is required for '--" ++ option ++ "' but none was supplied"
  | valueRefused option value => "invalid value '" ++ value ++ "' for '--" ++ option ++ "'"
  | optionMissing option => "the required argument '--" ++ option ++ "' was not provided"
  | conflict option other =>
      "the argument '--" ++ option ++ "' cannot be used with '--" ++ other ++ "'"
  | commandMissing => "a command is required but none was provided"

end CommandLine

end Cookbook
