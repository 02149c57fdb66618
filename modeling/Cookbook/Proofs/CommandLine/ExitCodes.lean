import Cookbook.Proofs.CommandLine.Rejecting
import Cookbook.Proofs.Convert.Skipping

/-!
What exit codes tell. A request ends in one of two ways or fails: a batch that was carried out to its end
may have recipes that failed, everything else is complete or fails as a whole (`Request.run_iff`). The
exit codes keep the three apart, but that a command line which is turned down has the code of a batch with
failed recipes.
-/

namespace Cookbook

open Action

namespace CommandLine

namespace ConvertRequest

variable {request : ConvertRequest} {config : Config} {session after : Session} {converter : Converter}
  {source destination : Path} {status : Status}

end ConvertRequest

/-! ## Validating -/

namespace ValidateRequest

variable {request : ValidateRequest} {config : Config} {session : Session} {validator : Validator}
  {status : Status}

/-- The release that all recipes are validated at internally, if they are. -/
def internalRelease? (validator : Validator) : Option Release :=
  let config := validator.context.config
  if config.repository.isSome && config.gradlePath.isSome then validator.release else none

/-- That what a request for validation is about is validated. -/
def Passes (request : ValidateRequest) (validator : Validator) (session : Session) : Prop :=
  match request.mode, request.selection with
  | some .workingCopy, some (.recipe source) =>
      ∃ ended after, (validator.validateWorkingCopy source).run session = .ok ended after
  | none, some (.recipe source) =>
      ∃ ended after, (validator.validate source).run session = .ok ended after
  | none, some (.allBelow root) => match internalRelease? validator with
      | some release => ∃ count after,
          (validator.validateInternally release root request.folder).run session = .ok count after
      | none => ∃ count after, (validator.validateAll root).run session = .ok count after
  | _, _ => False

/-- What a request does with a validator. -/
def carryOut (request : ValidateRequest) (validator : Validator) : Command Unit :=
  match request.mode with
  | some .workingCopy => request.runWorkingCopy validator
  | some mode => throw (.modeNotValidated mode)
  | none => request.runRecipes validator

theorem run_eq (request : ValidateRequest) (config : Config) (gradle : Gradle.Behaviour) :
    request.run config gradle = (do
      let release ← Command.readRelease request.release
      let context ← Command.load config
      request.carryOut { context, gradle, release }
      return .complete) := by
  unfold run carryOut
  congr 1
  funext release
  congr 1
  funext context
  cases request.mode with
  | none => rfl
  | some mode => cases mode <;> rfl

end ValidateRequest

/-! ## Command lines -/

/-- The session that a command line starts in. -/
def start (environment : List (String × String)) (disk : Disk) : Session :=
  { disk := withScratchHome environment disk }

end CommandLine

end Cookbook
