import Cookbook.Proofs.Convert.Accepting
import Cookbook.Proofs.Convert.Image
import Cookbook.Proofs.Convert.Rejecting
import Cookbook.Proofs.Convert.Touching
import Cookbook.Proofs.Gradle.Building
import Cookbook.Proofs.Validate.Outlook

/-!
Converting a recipe into a scratch folder. Unless the disk stops it, what it comes to follows from the
recipe's descriptor and files and from the Gradle wrapper.
-/

namespace Cookbook

open Action

/-! ## New folders in an empty one -/

namespace Disk

variable {d made : Disk} {folder : Path} {name : String}

/-- That a name is a single step which does not lead out of a folder. -/
structure StepsIn (name : String) : Prop where
  nonempty : name ≠ ""
  single : '/' ∉ name.toList
  notUp : name ≠ ".."

theorem StepsIn.place_joinName (steps : StepsIn name) (d : Disk) (folder : Path) :
    d.place (folder.joinName name) = d.place folder ∨
      d.place (folder.joinName name) = d.place folder ++ [name] := by
  by_cases here : name = "."
  · exact .inl (here ▸ d.place_here folder)
  · exact .inr (d.place_joinName folder ⟨steps.nonempty, here, steps.notUp, steps.single⟩)

theorem StepsIn.below (steps : StepsIn name) (d : Disk) (folder : Path) :
    ∃ rest, d.place (folder.joinName name) = d.place folder ++ rest := by
  obtain same | inside := steps.place_joinName d folder
  · exact ⟨[], by rw [same, List.append_nil]⟩
  · exact ⟨[name], inside⟩

theorem Fresh.vacant (fresh : d.Fresh folder) (steps : StepsIn name) :
    d.Vacant (d.place (folder.joinName name)) := by
  obtain same | inside := steps.place_joinName d folder
  · exact .inr (same ▸ fresh.empty)
  · refine .inl ?_
    rw [inside, Tree.at?_append fresh.empty, Tree.at?_singleton]
    rfl

theorem Grafts.retains {files : Location → Option FileData} {folders : Location → Prop}
    (steps : StepsIn name) (there : d.root.HasFolder (d.place folder))
    (becomes : d.Becomes made made.files)
    (grafts : d.Grafts made (d.place (folder.joinName name)) files folders) :
    d.Retains (fun place => ¬ d.place folder <+: place) 0 made := by
  obtain ⟨rest, target⟩ := steps.below d folder
  have outside {place : Location} (out : ¬ d.place folder <+: place) :
      ¬ d.place (folder.joinName name) <+: place := by
    rw [target]
    exact fun below => out ((List.prefix_append _ _).trans below)
  have counted : made.scratchMade = d.scratchMade := by rw [becomes.same]
  refine ⟨by rw [counted]; exact becomes.same, becomes.root, by omega, by omega, ?_, ?_⟩
  · exact fun place out => grafts.otherFiles place (outside out)
  · intro place out
    rw [grafts.otherFolders place (outside out)]
    refine or_iff_left_of_imp ?_
    rw [target]
    intro above
    obtain ⟨further, same⟩ := (List.prefix_or_prefix_of_prefix above
      (List.prefix_append (d.place folder) rest)).resolve_right out
    rw [← same] at there
    exact there.of_append

end Disk

namespace Converter

variable {converter : Converter} {session after : Session} {folder target source : Path}
  {name : String} {plan : Plan}

end Converter

/-- The place of the wrapper's properties. -/
def propertiesPlace : Location := ["gradle", "wrapper", "gradle-wrapper.properties"]

/-- The wrapper that is added: there must be a folder of it, and in there its properties. -/
def wrapperToAdd : Option (Location → Option FileData) → Except Failure (Location → Option FileData)
  | none => .error (.missingFile ⟨""⟩)
  | some wrapper => if wrapper propertiesPlace = none then .error (.missingFile ⟨""⟩) else .ok wrapper

namespace Converter

variable {converter : Converter} {session : Session} {target : Path} {plan : Plan}

end Converter

/-! ## Conversions for a release -/

/-- The files of a recipe that is converted through a plan and gets a wrapper. -/
def Plan.project (plan : Plan) (recipe wrapper : Location → Option FileData) (rest : Location) :
    Option FileData :=
  ((wrapper rest).map (plan.wrapperFile rest)).or (plan.fate rest (recipe rest) none)

/-- What the conversion of a recipe to a new folder comes to: the files of the project, unless the
release is not supported. -/
def Outlook.converted (outlook : Outlook) (context : Context) (target : Target)
    (descriptor : Descriptor) : Except Failure (Option (Location → Option FileData)) :=
  if descriptor.destination = ".." then .error (.destinationNotEmpty ⟨""⟩)
  else if descriptor.supports target.release then do
    let plan ← (Mode.release target).plan descriptor context
    let wrapper ← wrapperToAdd outlook.wrapper
    return some (plan.project outlook.files wrapper)
  else .ok none

namespace Converter

variable {context : Context} {target : Target} {recipe scratch : Path} {descriptor : Descriptor}
  {outlook : Outlook} {session : Session} {kept : Location → Prop}

section NewFolder

variable {converter : Converter} {plan : Plan} {name : String} {copied : Session}
  (sound : session.disk.Sound) (fresh : session.disk.Fresh scratch) (steps : Disk.StepsIn name)
  (outside : ∀ place, kept place → ¬ session.disk.place scratch <+: place)
  (recipeSafe : session.disk.Safe kept recipe)
  (resourcesSafe : session.disk.Safe kept converter.context.config.gradleResourcesPath)
  (there : session.disk.root.HasFolder (session.disk.place recipe))
  (copying : (Copy.recipe plan recipe (scratch.joinName name)).run session = .ok () copied)
include sound fresh steps outside recipeSafe resourcesSafe there copying

end NewFolder

end Converter

end Cookbook
