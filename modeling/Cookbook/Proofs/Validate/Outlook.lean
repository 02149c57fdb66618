import Cookbook.Proofs.Convert.Copying
import Cookbook.Proofs.Standing
import Cookbook.Proofs.Validate.Course
import Cookbook.Validate.Bounds

/-!
What the course of a validation depends on: the recipe's descriptor and files, the Gradle wrapper and the
releases that are taken to be published. None of it depends on where the recipe's folder is.
-/

namespace Cookbook

open Action

/-! ## Descriptors without paths -/

namespace Descriptor

variable {folder folder' : Path} {context : Context} {session session' : Session} {content : String}

/-- What a descriptor takes for the latest release of a line when it is loaded. -/
def latestFor (context : Context) (session : Session) (content : String) :
    ReleaseLine → Except Failure Release :=
  match lineToResolve? content with
  | some line => fun _ => (context.publishedRelease line).outcome session
  | none => fun _ => .error (.missingPublishedRelease none)

theorem load_outcome_of_text (read : session.disk.readText (folder.joinName fileName) = .ok content)
    (context : Context) :
    (load folder context).outcome session =
      parse content folder.name (folder.joinName fileName) (latestFor context session content) := by
  have loaded : (load folder context).run session = _ := load_of_text read
  unfold outcome
  rw [loaded]
  cases resolves : lineToResolve? content with
  | none =>
      simp only [latestFor, resolves]
      exact ofExcept_outcome _ _
  | some line =>
      simp only [latestFor, resolves]
      exact ofExcept_outcome _ _

theorem load_outcome (folder : Path) (context : Context) (session : Session) :
    (load folder context).outcome session =
      if session.disk.isFile (folder.joinName fileName) then
        match session.disk.readText (folder.joinName fileName) with
        | .ok content =>
            parse content folder.name (folder.joinName fileName) (latestFor context session content)
        | .error fault => .error (.io (folder.joinName fileName) fault)
      else .error (.missingDescriptor (folder.joinName fileName)) := by
  have asked : (isFile (folder.joinName fileName)).run session =
      .ok (session.disk.isFile (folder.joinName fileName)) session := rfl
  cases read : session.disk.readText (folder.joinName fileName) with
  | ok content => rw [load_outcome_of_text read, Disk.isFile_of_readText read, if_pos rfl]
  | error fault =>
      unfold load
      rw [outcome_bind_of_ok asked]
      split
      · exact outcome_of_error (run_bind_of_error (look_of_error read))
      · rfl

end Descriptor

/-! ## What is published -/

section Feed

variable {context : Context} {session session' : Session}

theorem outcome_bind_congr {α β : Type} {action : Action α} {next : α → Action β}
    (same : action.outcome session = action.outcome session')
    (onward : ∀ value after after', (next value).outcome after = (next value).outcome after') :
    (action >>= next).outcome session = (action >>= next).outcome session' := by
  cases ended : action.outcome session with
  | ok value =>
      rw [outcome_bind_of_ok (run_of_outcome_ok ended),
        outcome_bind_of_ok (run_of_outcome_ok (same ▸ ended))]
      exact onward value _ _
  | error failure =>
      rw [outcome_of_error (run_bind_of_error (run_of_outcome_error ended)),
        outcome_of_error (run_bind_of_error (run_of_outcome_error (same ▸ ended)))]

theorem publishedRelease_sameFeed (same : SameFeed context session session') (line : ReleaseLine) :
    (context.publishedRelease line).outcome session' =
      (context.publishedRelease line).outcome session :=
  outcome_bind_congr same fun published _ _ => by rw [ofExcept_outcome, ofExcept_outcome]

theorem greatestRelease_sameFeed (same : SameFeed context session session') :
    context.greatestRelease.outcome session' = context.greatestRelease.outcome session := by
  refine outcome_bind_congr same ?_
  intro published after after'
  split <;> rfl

theorem Validator.greatest_sameFeed {validator : Validator}
    (same : SameFeed validator.context session session') (descriptor : Descriptor) :
    (validator.greatest descriptor).outcome session' =
      (validator.greatest descriptor).outcome session := by
  unfold greatest
  split
  · exact publishedRelease_sameFeed same _
  · exact greatestRelease_sameFeed same

theorem Descriptor.latestFor_sameFeed (same : SameFeed context session session') (content : String) :
    latestFor context session' content = latestFor context session content := by
  unfold latestFor
  split
  · rw [publishedRelease_sameFeed same]
  · rfl

end Feed

/-! ## Outlooks -/

structure Outlook where
  descriptor : Except Failure Descriptor
  /-- The greatest release that a recipe is validated at. -/
  greatest : Descriptor → Except Failure Release
  files : Location → Option FileData
  /-- The files of the Gradle wrapper, if there is one. -/
  wrapper : Option (Location → Option FileData)

namespace Outlook

/-- That two recipes look the same once they are converted. -/
structure Like (first second : Outlook) : Prop where
  descriptor : SameVerdict first.descriptor second.descriptor
  greatest : first.greatest = second.greatest
  files : ∀ (plan : Plan) rest,
    plan.fate rest (first.files rest) none = plan.fate rest (second.files rest) none
  wrapper : first.wrapper = second.wrapper

theorem Like.refl (outlook : Outlook) : outlook.Like outlook := ⟨.refl _, rfl, fun _ _ => rfl, rfl⟩

end Outlook

/-- The files of the Gradle wrapper in a folder, if there is such a folder. -/
def Disk.wrapper (d : Disk) (resources : Path) : Option (Location → Option FileData) :=
  if d.isFolder resources then some fun rest => d.files (d.place resources ++ rest) else none

theorem Disk.Retains.wrapper {d made : Disk} {kept : Location → Prop} {count : Nat} {resources : Path}
    (retains : d.Retains kept count made) (safe : d.Safe kept resources) :
    made.wrapper resources = d.wrapper resources := by
  unfold Disk.wrapper
  rw [retains.isFolder safe.clear]
  simp only [retains.place, retains.files _ (safe.below _)]

namespace Validator

variable {validator : Validator} {own : Location → Prop} {count : Nat} {recipe : Path}
  {session after : Session}

def resources (validator : Validator) : Path := validator.context.config.gradleResourcesPath

def outlook (validator : Validator) (recipe : Path) (session : Session) : Outlook where
  descriptor := (Descriptor.load recipe validator.context).outcome session
  greatest descriptor := (validator.greatest descriptor).outcome session
  files rest := session.disk.files (session.disk.place recipe ++ rest)
  wrapper := session.disk.wrapper validator.resources

theorem load_stands (stands : session.Stands validator.context own count after)
    (safe : session.disk.Safe (session.disk.Lasting own) recipe) :
    (Descriptor.load recipe validator.context).outcome after =
      (Descriptor.load recipe validator.context).outcome session := by
  have clear : session.disk.Clear (session.disk.Lasting own) (recipe.joinName Descriptor.fileName) := by
    refine safe.clear.joinName Descriptor.fileName_proper.single ?_
    rw [Disk.place_joinName _ _ Descriptor.fileName_proper]
    exact safe.below [Descriptor.fileName]
  rw [Descriptor.load_outcome, Descriptor.load_outcome, stands.disk.isFile clear]
  split
  · next file =>
      rw [stands.disk.readText clear file]
      cases session.disk.readText (recipe.joinName Descriptor.fileName) with
      | ok content =>
          dsimp only
          rw [Descriptor.latestFor_sameFeed stands.feed]
      | error fault => rfl
  · rfl

/-- What the course of a validation depends on stays while what lasts does. -/
theorem outlook_stands (stands : session.Stands validator.context own count after)
    (recipeSafe : session.disk.Safe (session.disk.Lasting own) recipe)
    (resourcesSafe : session.disk.Safe (session.disk.Lasting own) validator.resources) :
    validator.outlook recipe after = validator.outlook recipe session := by
  unfold outlook
  rw [load_stands stands recipeSafe, stands.disk.wrapper resourcesSafe]
  simp only [greatest_sameFeed stands.feed, stands.disk.place,
    stands.disk.files _ (recipeSafe.below _)]

/-- That scratch folders are made apart from each other, from what a validation reads besides the recipe
and from what Gradle keeps for its own, and that there is room in the paths of so many of them. -/
structure Undisturbed (validator : Validator) (own : Location → Prop) (count : Nat) (d : Disk) :
    Prop where
  sound : d.Sound
  resources : d.Safe (d.Lasting own) validator.resources
  feed : d.Clear (d.Lasting own) validator.context.config.feed
  home : d.Clear (d.Lasting own) d.scratchRoot
  scratch : ∀ number, d.scratchMade ≤ number → ∀ rest, ¬ own (d.place (d.scratchPath number) ++ rest)
  room : ∀ number, number < d.scratchMade + count →
    d.refuse? ((d.scratchPath number).joinName "..") = none

namespace Undisturbed

variable {total further : Nat}

theorem stands {context : Context} (undisturbed : validator.Undisturbed own total session.disk)
    (stands : session.Stands context own count after) (enough : count + further ≤ total) :
    validator.Undisturbed own further after.disk where
  sound := stands.disk.sound undisturbed.sound
  resources := stands.disk.safe undisturbed.resources
  feed := stands.disk.clear undisturbed.feed
  home := by
    rw [stands.disk.scratchRoot]
    exact stands.disk.clear undisturbed.home
  scratch number later := by
    rw [stands.disk.scratchPath, stands.disk.place]
    exact undisturbed.scratch number (Nat.le_trans stands.disk.least later)
  room number early := by
    have most := stands.disk.most
    rw [stands.disk.scratchPath, stands.disk.refuse?]
    exact undisturbed.room number (by omega)

theorem notOwn {d : Disk} {number : Nat} (undisturbed : validator.Undisturbed own total d)
    (later : d.scratchMade ≤ number) : d.Clear (¬ own ·) (d.scratchPath number) := by
  have home := undisturbed.home.mono fun _ lasting => lasting.1
  refine home.joinName (Disk.scratchName_proper number).single ?_
  have notOwn := undisturbed.scratch number later []
  rwa [List.append_nil] at notOwn

end Undisturbed

end Validator
end Cookbook
