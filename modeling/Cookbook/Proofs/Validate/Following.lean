import Cookbook.Proofs.Convert.Skipping
import Cookbook.Proofs.Validate.Bounds
import Cookbook.Proofs.Validate.Converting

/-!
The course of a validation. What a validation runs and how it ends follows from its outlook on the recipe,
unless the disk stops it.
-/

namespace Cookbook

open Action

/-! ## Building in scratch folders -/

namespace Gradle.Executor

variable {executor : Executor} {own : Location → Prop} {d made : Disk} {number : Nat} {name : String}

section Opened

variable {files : Location → Option FileData} (steps : Disk.StepsIn name)
  (project : executor.project = (d.scratchPath number).joinName name)
  (scratch : executor.scratch = d.nextScratch) (houses : d.Houses executor.project files)
  (opened : d.openScratch = .ok made)
include steps project scratch houses opened

variable (sees : d.Sees Disk.nothing (d.place (d.scratchPath number)) (d.scratchPath number))
  (outerClear : d.Clear (¬ own ·) (d.scratchPath number))
include sees outerClear

end Opened

end Gradle.Executor

namespace Validator

variable {validator : Validator} {own : Location → Prop} {effect : Gradle.Effect} {total count : Nat}
  {start session : Session} {recipe : Path} {files : Location → Option FileData}

end Validator

/-! ## Validating at a release -/

/-- The course of validating a recipe at a release. -/
def Outlook.tried (outlook : Outlook) (effect : Gradle.Effect) (context : Context)
    (descriptor : Descriptor) (release : Release) : Course Unit := do
  let gradle ← Course.ofExcept (context.gradleVersion release.line)
  let target ← Course.ofExcept (Target.resolve release (some gradle) context)
  match ← Course.ofExcept (outlook.converted context target descriptor) with
  | some files =>
      Gradle.carriedOutBoth effect context descriptor.tasks (descriptor.validationTasks.getD []) files
  | none => return ()

namespace Validator

variable {validator : Validator} {own : Location → Prop} {effect : Gradle.Effect}
  {count further : Nat} {session after : Session} {recipe : Path} {outlook : Outlook}
  {descriptor : Descriptor}

/-- That a recipe with an outlook is in a folder that lasts. -/
structure Ready (validator : Validator) (own : Location → Prop) (count : Nat) (recipe : Path)
    (outlook : Outlook) (session : Session) : Prop where
  undisturbed : validator.Undisturbed own count session.disk
  safe : session.disk.Safe (session.disk.Lasting own) recipe
  named : recipe.name ≠ ""
  like : (validator.outlook recipe session).Like outlook

theorem Ready.stands {total : Nat} (ready : validator.Ready own total recipe outlook session)
    (stands : session.Stands validator.context own count after) (enough : count + further ≤ total) :
    validator.Ready own further recipe outlook after where
  undisturbed := ready.undisturbed.stands stands enough
  safe := stands.disk.safe ready.safe
  named := ready.named
  like := by
    rw [outlook_stands stands ready.safe ready.undisturbed.resources]
    exact ready.like

theorem Ready.reading (ready : validator.Ready own count recipe outlook session)
    (disk : after.disk = session.disk) (feed : SameFeed validator.context session after) :
    validator.Ready own count recipe outlook after :=
  ready.stands ((Session.Stands.refl ready.undisturbed.sound).reading disk feed) (by omega)

theorem Ready.fewer (ready : validator.Ready own count recipe outlook session)
    (fewer : further ≤ count) : validator.Ready own further recipe outlook session :=
  ready.stands (.refl ready.undisturbed.sound) (by omega)

theorem Ready.load (ready : validator.Ready own count recipe outlook session)
    (known : outlook.descriptor = .ok descriptor) :
    (Descriptor.load recipe validator.context).run session =
      .ok descriptor ((Descriptor.load recipe validator.context).left session) := by
  have same := ready.like.descriptor
  rw [known] at same
  exact run_of_outcome_ok (sameVerdict_ok.mp (Eq.symm same))

end Validator

/-! ## Validating -/

/-- The course of validating a recipe. -/
def Outlook.course (outlook : Outlook) (effect : Gradle.Effect) (validator : Validator) :
    Course Unit := do
  let descriptor ← Course.ofExcept outlook.descriptor
  match validator.release with
  | some release => outlook.tried effect validator.context descriptor release
  | none =>
      outlook.tried effect validator.context descriptor descriptor.minimum
      let greatest ← Course.ofExcept (outlook.greatest descriptor)
      if greatest ≠ descriptor.minimum then
        outlook.tried effect validator.context descriptor greatest

namespace Validator

variable {validator : Validator} {own : Location → Prop} {effect : Gradle.Effect}
  {session : Session} {recipe : Path} {outlook : Outlook}

end Validator
end Cookbook
