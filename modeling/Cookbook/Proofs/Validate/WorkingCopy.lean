import Cookbook.Proofs.Convert.Lasting
import Cookbook.Proofs.Convert.RoundTrip
import Cookbook.Proofs.Validate.Following
import Mathlib.Data.List.Infix

/-!
Validating working copies. A working copy is restored before it is validated, and what it is restored to
has the same outlook as the recipe, so that both validations follow the same course.
-/

namespace Cookbook

open Action

/-! ## Restoring in a scratch folder -/

namespace Validator

variable {validator : Validator} {own : Location → Prop} {effect : Gradle.Effect} {count : Nat}
  {start session after : Session} {copy recipe : Path} {made : Disk} {descriptor : Descriptor}

end Validator

/-! ## Working copies of recipes -/

namespace Converter

variable {copier : Converter} {recipe copies results : Path} {session between : Session}
  {copied : Conversion}

section Copied

variable (isCopy : copier.mode = .workingCopy)
  (ready : RoundTrip session.disk copier.context.config.gradleResourcesPath recipe copies results)
  (copying : (copier.convert recipe copies).run session = .ok copied between)
include isCopy ready copying

end Copied

end Converter

namespace Validator

variable {validator : Validator} {copier : Converter} {own : Location → Prop} {effect : Gradle.Effect}
  {recipe copies results : Path} {session between : Session} {copied : Conversion} {d made : Disk}
  {files : Location → Option FileData} {count : Nat}

theorem Undisturbed.becomes (undisturbed : validator.Undisturbed own count d)
    (becomes : d.Becomes made files) : validator.Undisturbed own count made := by
  have sound := becomes.sound undisturbed.sound
  rw [becomes.same] at sound ⊢
  have resources := undisturbed.resources
  exact ⟨sound, ⟨resources.clear, resources.below⟩, undisturbed.feed, undisturbed.home,
    undisturbed.scratch, undisturbed.room⟩

end Validator
end Cookbook
