import Cookbook.Proofs.Validate.Outlook

/-!
Recipes as they are found on a disk, and descriptors as their metadata give them. A descriptor that is
loaded while a run goes on is the one that the metadata give with the releases that the run knows in the
end.
-/

namespace Cookbook

open Action

/-- The latest release of a line, as far as the feed was read. -/
def Session.latest (session : Session) (line : ReleaseLine) : Except Failure Release :=
  match session.published with
  | some published => published.release line
  | none => .error (.missingPublishedRelease none)

/-- The descriptor that the metadata in a folder give. -/
def Disk.descriptor? (d : Disk) (latest : ReleaseLine → Except Failure Release) (folder : Path) :
    Option Descriptor := do
  let data ← d.files (d.place folder ++ [Descriptor.fileName])
  let content ← String.fromUTF8? data.bytes
  (Descriptor.parse content folder.name (folder.joinName Descriptor.fileName) latest).toOption

theorem Disk.descriptor?_congr {d made : Disk} {folder : Path}
    {latest : ReleaseLine → Except Failure Release} (here : made.here = d.here)
    (same : made.files (d.place folder ++ [Descriptor.fileName]) =
      d.files (d.place folder ++ [Descriptor.fileName])) :
    made.descriptor? latest folder = d.descriptor? latest folder := by
  unfold descriptor?
  rw [place_congr here, same]

theorem Disk.describes_of_descriptor? {d : Disk} {folder : Path} {descriptor : Descriptor}
    {latest : ReleaseLine → Except Failure Release}
    (given : d.descriptor? latest folder = some descriptor) : d.Describes folder descriptor := by
  unfold descriptor? at given
  obtain ⟨data, there, given⟩ := Option.bind_eq_some_iff.mp given
  obtain ⟨content, decoded, parsed⟩ := Option.bind_eq_some_iff.mp given
  exact ⟨data, content, latest, there, decoded, except_toOption_eq_some.mp parsed⟩

theorem findRecipes_mono {d made : Disk} {root : Path} {recipes : List Path}
    (found : findRecipes d root = .ok recipes)
    (same : made = { d with root := made.root }) (keeps : d.KeepsFolders made)
    (still : made.root.at? (d.place root) = d.root.at? (d.place root)) :
    findRecipes made root = .ok recipes := by
  have accepts (p : Path) : made.refuse? p = d.refuse? p := by
    rw [same]
    rfl
  unfold findRecipes at found ⊢
  split at found
  · next tree there =>
      rw [Disk.entry_mono there same keeps still]
      simpa only [accepts] using found
  · cases found

theorem findRecipes_openScratch {d made : Disk} {root : Path} {recipes : List Path}
    (opened : d.openScratch = .ok made)
    (apart : Apart (d.place root) (d.place d.nextScratch))
    (found : findRecipes d root = .ok recipes) : findRecipes made root = .ok recipes := by
  have same : made = { d.countScratch with root := made.root } := by
    obtain ⟨_, _, _, -, -, same⟩ := Disk.createFolder_eq_ok opened
    rw [same]
  exact findRecipes_mono (show findRecipes d.countScratch root = .ok recipes from found) same
    (Disk.createFolder_adds opened).keeps (Disk.createFolder_at? opened apart)

/-! ## Lookups -/

theorem Context.latest_of_publishedRelease {context : Context} {line : ReleaseLine}
    {release : Release} {session after later : Session}
    (run : (context.publishedRelease line).run session = .ok release after)
    (remembers : Remembers after later) : later.latest line = .ok release := by
  obtain ⟨published, known, found⟩ := publishedRelease_known run
  unfold Session.latest
  rw [remembers published known]
  exact found

namespace Descriptor

variable {folder : Path} {context : Context} {session after later : Session} {content : String}
  {folderName : String} {path : Path} {descriptor : Descriptor}
  {lookup latest : ReleaseLine → Except Failure Release}

theorem lineToResolve?_of_latestOf {metadata : Metadata} {text : String} {line : ReleaseLine}
    (read : Metadata.read content = .ok metadata)
    (least : Minimum.read path metadata = .ok (.latestOf text line)) :
    lineToResolve? content = some line := by
  unfold Minimum.read at least
  split at least
  · cases least
  · next given =>
      split at least
      · next other line_ =>
          cases least
          exact lineToResolve?_of_read read given line_
      · cases least
      · cases least

theorem parse_congr (same : ∀ line, lineToResolve? content = some line → latest line = lookup line) :
    parse content folderName path latest = parse content folderName path lookup := by
  unfold parse
  cases read : readMetadata path content with
  | error failure => rfl
  | ok metadata =>
      have metadata_ : Metadata.read content = .ok metadata := by
        unfold readMetadata at read
        split at read
        · next found =>
            cases read
            exact found
        · cases read
      cases least : Minimum.read path metadata with
      | error failure => simp [bind, Except.bind, least]
      | ok minimum =>
          have resolved : minimum.resolve path latest = minimum.resolve path lookup := by
            cases minimum with
            | exactly release => rfl
            | latestOf text line =>
                rw [Minimum.resolve, Minimum.resolve,
                  same line (lineToResolve?_of_latestOf metadata_ least)]
          simp [bind, Except.bind, least, resolved]

/-- A descriptor that was loaded is the one that the metadata give with what is known of the feed later. -/
theorem descriptor?_of_load (run : (load folder context).run session = .ok descriptor after)
    (remembers : Remembers after later) :
    session.disk.descriptor? later.latest folder = some descriptor := by
  obtain ⟨content, -, read, -⟩ := load_eq_ok run
  obtain ⟨data, here, decoded⟩ := Disk.readText_eq_ok read
  rw [Disk.place_joinName _ _ fileName_proper] at here
  have parsed : parse content folder.name (folder.joinName fileName) later.latest =
      .ok descriptor := by
    have outcome := load_outcome_of_text read context
    rw [outcome_of_ok run] at outcome
    rw [outcome]
    refine parse_congr fun line resolves => ?_
    obtain ⟨metadata, text, metadata_, given, line_⟩ := lineToResolve?_eq_some resolves
    have found := publishedRelease_of_load run read metadata_ given line_
    have looked := run_of_outcome_ok found
    have loads := run
    rw [load_of_text read, resolves] at loads
    obtain ⟨-, left⟩ := ofExcept_eq_ok.mp loads
    rw [left] at looked
    rw [Context.latest_of_publishedRelease looked remembers]
    simp only [latestFor, resolves, found]
  unfold Disk.descriptor?
  simp only [here, decoded, parsed, Option.bind_eq_bind, Option.bind_some]
  rfl

end Descriptor
end Cookbook
