import Cookbook.Proofs.Disk.Edits
import Cookbook.Proofs.Disk.Retaining
import Cookbook.Proofs.Gradle.Executing
import Cookbook.Proofs.Validate.Course

/-!
Building projects with a Gradle that depends only on the project's files and the tasks. Its runs then
follow from the files that the project has at first, wherever the project is.
-/

namespace Cookbook

open Action

/-! ## Projects -/

namespace Disk

variable {d made : Disk} {project : Path} {files : Location → Option FileData}

/-- That a path leads to a project with the given files. -/
structure Houses (d : Disk) (project : Path) (files : Location → Option FileData) : Prop where
  folder : d.isFolder project = true
  accepted : d.refuse? (project.joinName "gradlew") = none
  files : ∀ rest, d.files (d.place project ++ rest) = files rest

theorem Houses.leads (houses : d.Houses project files) : d.Leads project :=
  (isFolder_iff.mp houses.folder).2

theorem Houses.script (houses : d.Houses project files) :
    d.isFile (project.joinName "gradlew") = (files ["gradlew"]).isSome := by
  have proper : ProperName "gradlew" := by decide
  rw [← houses.files]
  cases found : d.files (d.place project ++ ["gradlew"]) with
  | some data => exact isFile_joinName houses.leads proper houses.accepted (by decide) found
  | none =>
      rw [Option.isSome_none, Bool.eq_false_iff]
      intro file
      have there := (isFile_iff.mp file).2.2.2.1
      rw [place_joinName _ _ proper] at there
      exact there found

theorem Houses.content (houses : d.Houses project files) :
    ((d.list project).toOption.getD .empty).fileAt? = files := by
  obtain ⟨content, list⟩ := list_of_isFolder houses.folder
  have there := list_eq_ok list
  funext rest
  rw [list, ← houses.files, Disk.files, Tree.fileAt?_append there]
  rfl

/-- That a disk has the files of another one, and new folders only in a folder of that. -/
structure Furnishes (folder : Path) (d made : Disk) : Prop where
  becomes : d.Becomes made d.files
  keeps : d.KeepsFolders made
  retains : d.Retains (Tree.Visible nothing (d.place folder)) 0 made

theorem Furnishes.trans {folder : Path} {between : Disk} (first : d.Furnishes folder between)
    (second : between.Furnishes folder made) : d.Furnishes folder made where
  becomes := first.becomes.files ▸ first.becomes.trans second.becomes
  keeps := first.keeps.trans second.keeps
  retains := first.retains.trans (first.becomes.place folder ▸ second.retains)

end Disk

namespace Gradle

/-! ## Courses of builds -/

/-- How a run of tasks in a project ends, and the files that the project has then. -/
abbrev Effect := (Location → Option FileData) → List String → Ending × (Location → Option FileData)

/-- How a run of tasks went wrong, where the project is not told. -/
def mishapOf (context : Context) (tasks : List String) : Ending → Option Mishap
  | .notStarted fault => some (.notStarted fault)
  | .timedOut => some (.timedOut (context.config.timeout.getD 0 / 1000) ⟨""⟩)
  | .exited code => if code = some 0 then none else some (.failed tasks ⟨""⟩ code)

/-- The course of carrying tasks out in a project with the given files, with the files it has then. -/
def carriedOut (effect : Effect) (context : Context) (tasks : List String)
    (files : Location → Option FileData) : Course (Location → Option FileData) :=
  if tasks = [] then pure files
  else if files ["gradlew"] = none then .ofExcept (.error (.missingFile ⟨""⟩))
  else do
    Course.ran ⟨tasks, files, (effect files tasks).1⟩
    match mishapOf context tasks (effect files tasks).1 with
    | some mishap => .ofExcept (.error (.taskExecution mishap))
    | none => pure (effect files tasks).2

/-- The course of carrying out tasks and then others. -/
def carriedOutBoth (effect : Effect) (context : Context) (tasks others : List String)
    (files : Location → Option FileData) : Course Unit := do
  let files ← carriedOut effect context tasks files
  let _ ← carriedOut effect context others files
  return ()

namespace Executor

variable {executor : Executor} {own : Location → Prop} {effect : Effect} {d made : Disk}
  {files : Location → Option FileData} {tasks : List String} {session after : Session}

/-- That a place is neither in the executor's folders nor one that Gradle keeps for its own. -/
structure LeavesAlone (executor : Executor) (own : Location → Prop) (d : Disk) (place : Location) :
    Prop where
  notOwn : ¬ own place
  notProject : Tree.Visible Disk.nothing (d.place executor.project) place
  notScratch : Tree.Visible Disk.nothing (d.place executor.scratch) place

theorem leavesAlone_congr (here : made.here = d.here) :
    executor.LeavesAlone own made = executor.LeavesAlone own d := by
  funext place
  rw [eq_iff_iff]
  constructor
  · rintro ⟨notOwn, notProject, notScratch⟩
    rw [Disk.place_congr here] at notProject notScratch
    exact ⟨notOwn, notProject, notScratch⟩
  · rintro ⟨notOwn, notProject, notScratch⟩
    refine ⟨notOwn, ?_, ?_⟩
    · rwa [Disk.place_congr here]
    · rwa [Disk.place_congr here]

/-- That an executor has its folders apart, and that Gradle cannot close the ways there. -/
structure Site (executor : Executor) (own : Location → Prop) (files : Location → Option FileData)
    (d : Disk) : Prop where
  sound : d.Sound
  houses : d.Houses executor.project files
  home : d.Leads executor.scratch
  apart : Apart (d.place executor.project) (d.place executor.scratch)
  projectClear : d.Clear (executor.LeavesAlone own d) executor.project
  homeClear : d.Clear (executor.LeavesAlone own d) executor.scratch

/-- That Gradle reports of tasks what an effect says of the project's files, and that it leaves alone
what is neither in the executor's folders nor its own. -/
structure Accords (executor : Executor) (own : Location → Prop) (effect : Effect) (tasks : List String)
    (d : Disk) (report : Report) : Prop where
  ending : report.ending = (effect (fun rest => d.files (d.place executor.project ++ rest)) tasks).1
  files : ∀ rest, report.disk.files (d.place executor.project ++ rest) =
    (effect (fun rest => d.files (d.place executor.project ++ rest)) tasks).2 rest
  others : d.Retains (executor.LeavesAlone own d) 0 report.disk

end Executor

namespace Executor

variable {executor : Executor} {own : Location → Prop} {effect : Effect} {d made : Disk}
  {files : Location → Option FileData} {tasks : List String} {session after : Session}

/-! ## What is left of a site -/

theorem Site.built {report : Report} (site : executor.Site own files d)
    (accords : executor.Accords own effect tasks d report) :
    executor.Site own (effect files tasks).2 report.disk := by
  have others := accords.others
  have same : (fun rest => d.files (d.place executor.project ++ rest)) = files :=
    funext site.houses.files
  refine ⟨others.sound site.sound, ⟨?_, ?_, ?_⟩, ?_, ?_, ?_, ?_⟩
  · rw [others.isFolder site.projectClear]
    exact site.houses.folder
  · rw [others.refuse?]
    exact site.houses.accepted
  · intro rest
    rw [others.place, accords.files, same]
  · exact (others.leads_iff site.homeClear).mpr site.home
  · rw [others.place, others.place]
    exact site.apart
  · rw [leavesAlone_congr others.here]
    exact site.projectClear.congr others.here
  · rw [leavesAlone_congr others.here]
    exact site.homeClear.congr others.here

/-! ## Carrying tasks out -/

end Executor
end Gradle
end Cookbook
