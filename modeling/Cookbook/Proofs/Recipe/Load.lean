import Cookbook.Proofs.Disk.Files
import Cookbook.Recipe.Load

/-!
Loading descriptors. It never changes the disk, and a descriptor is named for the folder it was loaded
from.
-/

namespace Cookbook

open Action

theorem Context.readFeed_sameDisk (context : Context) : Keeps SameDisk context.readFeed := by
  unfold readFeed
  refine keeps_bind (keeps_isFile _) ?_
  intro found
  split
  · refine keeps_bind (keeps_look _ _) ?_
    intro content
    exact keeps_ofExcept _
  · exact keeps_throw _

theorem Context.published_sameDisk (context : Context) : Keeps SameDisk context.published := by
  unfold published
  refine keeps_bind keeps_get ?_
  intro session
  split
  · exact keeps_pure _
  · refine keeps_bind context.readFeed_sameDisk ?_
    intro published
    exact keeps_bind (fun _ => rfl) fun _ => keeps_pure _

theorem Context.publishedRelease_sameDisk (context : Context) (line : ReleaseLine) :
    Keeps SameDisk (context.publishedRelease line) := by
  unfold publishedRelease
  refine keeps_bind context.published_sameDisk ?_
  intro published
  exact keeps_ofExcept _

/-! ## The feed -/

theorem Context.readFeed_same (context : Context) : Keeps (· = ·) context.readFeed := by
  unfold readFeed
  refine keeps_bind (keeps_isFile _) ?_
  intro found
  split
  · exact keeps_bind (keeps_look _ _) fun _ => keeps_ofExcept _
  · exact keeps_throw _

theorem Context.published_run (context : Context) (session : Session) :
    context.published.run session = match session.published with
      | some published => .ok published session
      | none => match context.readFeed.outcome session with
        | .ok published => .ok published { session with published := some published }
        | .error failure => .error failure session := by
  have got : (get : Action Session).run session = .ok session session := rfl
  unfold published
  rw [run_bind_of_ok got]
  cases session.published with
  | some published => rfl
  | none =>
      have same := context.readFeed_same session
      cases read : context.readFeed.outcome session with
      | ok published =>
          have run := run_of_outcome_ok read
          rw [← same] at run
          exact run_bind_of_ok run
      | error failure =>
          have run := run_of_outcome_error read
          rw [← same] at run
          exact run_bind_of_error run

/-- That the releases which are taken to be published are the same in two sessions, whether or not they
are remembered. -/
def SameFeed (context : Context) (session after : Session) : Prop :=
  context.published.outcome after = context.published.outcome session

instance (context : Context) : IsPreorder Session (SameFeed context) where
  refl _ := rfl
  trans _ _ _ first second := second.trans first

theorem Context.published_sameFeed (context : Context) :
    Keeps (SameFeed context) context.published := by
  intro session
  cases known : session.published with
  | some published =>
      have run : context.published.run session = .ok published session := by
        rw [published_run, known]
      rw [left_of_ok run]
      exact refl_of (SameFeed context) session
  | none =>
      cases read : context.readFeed.outcome session with
      | ok published =>
          have run : context.published.run session =
              .ok published { session with published := some published } := by
            rw [published_run, known, read]
          have again := context.published_run { session with published := some published }
          rw [left_of_ok run]
          exact (outcome_of_ok again).trans (outcome_of_ok run).symm
      | error failure =>
          have run : context.published.run session = .error failure session := by
            rw [published_run, known, read]
          rw [left_of_error run]
          exact refl_of (SameFeed context) session

theorem sameFeed_of_readFeed {context : Context} {session after : Session}
    (known : after.published = session.published)
    (read : context.readFeed.outcome after = context.readFeed.outcome session) :
    SameFeed context session after := by
  unfold SameFeed outcome
  rw [context.published_run after, context.published_run session, known, read]
  cases session.published with
  | some published => rfl
  | none => cases context.readFeed.outcome session <;> rfl

theorem Descriptor.load_sameFeed (folder : Path) (context : Context) :
    Keeps (SameFeed context) (load folder context) := by
  unfold load
  refine keeps_bind (keeps_isFile _) ?_
  intro found
  split
  · refine keeps_bind (keeps_look _ _) ?_
    intro content
    split
    · have lookup (line : ReleaseLine) : Keeps (SameFeed context) (context.publishedRelease line) :=
        keeps_bind context.published_sameFeed fun _ => keeps_ofExcept _
      exact keeps_bind (keeps_attempt (lookup _)) fun _ => keeps_ofExcept _
    · exact keeps_bind (keeps_pure _) fun _ => keeps_ofExcept _
  · exact keeps_throw _

/-! ## Descriptors -/

theorem Descriptor.fileName_proper : ProperName fileName := by
  decide

/-- That a descriptor is one that the metadata in a folder give, for some published releases. -/
def Disk.Describes (d : Disk) (folder : Path) (descriptor : Descriptor) : Prop :=
  ∃ data content lookup, d.files (d.place folder ++ [Descriptor.fileName]) = some data ∧
    String.fromUTF8? data.bytes = some content ∧
    Descriptor.parse content folder.name (folder.joinName Descriptor.fileName) lookup = .ok descriptor

theorem Disk.Describes.congr {d made : Disk} {folder : Path} {descriptor : Descriptor}
    (describes : d.Describes folder descriptor) (place : made.place folder = d.place folder)
    (same : made.files (d.place folder ++ [Descriptor.fileName]) =
      d.files (d.place folder ++ [Descriptor.fileName])) : made.Describes folder descriptor := by
  obtain ⟨data, content, lookup, here, decoded, parsed⟩ := describes
  exact ⟨data, content, lookup, by rw [place, same, here], decoded, parsed⟩

namespace Descriptor

theorem load_sameDisk (folder : Path) (context : Context) : Keeps SameDisk (load folder context) := by
  unfold load
  refine keeps_bind (keeps_isFile _) ?_
  intro found
  split
  · refine keeps_bind (keeps_look _ _) ?_
    intro content
    split
    · refine keeps_bind (keeps_attempt (context.publishedRelease_sameDisk _)) ?_
      intro latest
      exact keeps_ofExcept _
    · exact keeps_bind (keeps_pure _) fun _ => keeps_ofExcept _
  · exact keeps_throw _

section Parsing

variable {content folderName : String} {path : Path} {lookup : ReleaseLine → Except Failure Release}
  {descriptor : Descriptor}

/-- Where each field of a descriptor comes from. -/
theorem parse_eq_ok (parsed : parse content folderName path lookup = .ok descriptor) :
    ∃ metadata least, readMetadata path content = .ok metadata ∧
      Minimum.read path metadata = .ok least ∧
      least.resolve path lookup = .ok descriptor.minimum ∧
      readMaximum path metadata = .ok descriptor.maximum ∧
      readDestination folderName path metadata = .ok descriptor.destination ∧
      checkKeywords path metadata = .ok () ∧
      descriptor = {
        descriptor with
        folderName
        title := (metadata.title.bind Text.nonBlank?).getD folderName
        tasks := metadata.tasks
        validationTasks := metadata.validationTasks
        keywords := metadata.keywords } := by
  unfold parse at parsed
  simp only [except_bind_eq_ok] at parsed
  obtain ⟨metadata, read, least, given, minimum, resolved, maximum, most, destination, named,
    ⟨⟩, checked, made⟩ := parsed
  cases made
  exact ⟨metadata, least, read, given, resolved, most, named, checked, rfl⟩

theorem parse_folderName (parsed : parse content folderName path lookup = .ok descriptor) :
    descriptor.folderName = folderName := by
  obtain ⟨_, _, -, -, -, -, -, -, made⟩ := parse_eq_ok parsed
  rw [made]

end Parsing

theorem load_eq_ok {folder : Path} {context : Context} {session after : Session}
    {descriptor : Descriptor} (run : (load folder context).run session = .ok descriptor after) :
    ∃ content lookup, session.disk.readText (folder.joinName fileName) = .ok content ∧
      (∀ line, lineToResolve? content = some line →
        lookup line = (context.publishedRelease line).outcome session) ∧
      parse content folder.name (folder.joinName fileName) lookup = .ok descriptor := by
  unfold load at run
  simp only [bind_eq_ok] at run
  obtain ⟨found, between, checked, run⟩ := run
  obtain ⟨-, rfl⟩ := isFile_eq_ok.mp checked
  split at run
  · rw [bind_eq_ok] at run
    obtain ⟨content, reading, read, run⟩ := run
    obtain ⟨content_, rfl⟩ := readText_eq_ok.mp read
    split at run
    · next line asked =>
        rw [bind_eq_ok] at run
        obtain ⟨latest, resolved, resolving, run⟩ := run
        refine ⟨content, _, content_, fun other asking => ?_, (ofExcept_eq_ok.mp run).1⟩
        rw [asked] at asking
        cases asking
        rw [attempt_run] at resolving
        cases resolving
        rfl
    · next asked =>
        refine ⟨content, _, content_, fun other asking => ?_, (ofExcept_eq_ok.mp run).1⟩
        rw [asked] at asking
        cases asking
  · exact absurd run throw_ne_ok

theorem load_describes {folder : Path} {context : Context} {session after : Session}
    {descriptor : Descriptor} (run : (load folder context).run session = .ok descriptor after) :
    session.disk.Describes folder descriptor := by
  obtain ⟨content, lookup, read, -, parsed⟩ := load_eq_ok run
  obtain ⟨data, here, decoded⟩ := Disk.readText_eq_ok read
  rw [Disk.place_joinName _ _ fileName_proper] at here
  exact ⟨data, content, lookup, here, decoded, parsed⟩

theorem load_folderName {folder : Path} {context : Context} {session after : Session}
    {descriptor : Descriptor} (run : (load folder context).run session = .ok descriptor after) :
    descriptor.folderName = folder.name := by
  obtain ⟨content, lookup, -, -, parsed⟩ := load_eq_ok run
  exact parse_folderName parsed

end Descriptor

end Cookbook
