import Cookbook.Proofs.Convert.Sources

/-!
Conversions that may not overwrite leave the files that are there. A batch leaves all but its index. A
single conversion is less careful about a destination that is no folder yet: a path that goes through a
missing folder and up again leads to folders that are there once the missing one is made.
-/

namespace Cookbook

open Action

namespace Converter

variable {converter : Converter} {source destination : Path} {session : Session} {visit : Visit}
  {place : Location}

theorem convert_keepsFile (sound : session.disk.Sound) (noOverwrite : converter.overwrite = false)
    (there : session.disk.files place ≠ none)
    (aside : session.disk.isFolder destination = false → ∀ target,
      converter.target? source destination session = some target →
        ¬ session.disk.place target <+: place) :
    ((converter.convert source destination).left session).disk.files place =
      session.disk.files place := by
  cases folder : session.disk.isFolder destination with
  | true =>
      obtain ⟨accepted, leads⟩ := Disk.isFolder_iff.mp folder
      refine convert_spares sound noOverwrite (.inr leads) ?_ there
      intro target known
      obtain ⟨descriptor, loaded, rfl⟩ := Option.map_eq_some_iff.mp known
      have single := (Mode.destinationName_of_load (run_eq_ok loaded) converter.mode).1
      exact Path.text_joinName_of_text (Disk.text_ne_empty accepted) single
  | false =>
      obtain same | ⟨target, known, confined⟩ := converter.convert_changes source destination session
      · exact congrArg (Disk.files · place) same
      · exact (confined sound).outside place (aside folder target known)

/-! ## Batches -/

theorem writeText_file {path : Path} (sound : session.disk.Sound) (text : String)
    (elsewhere : place ≠ session.disk.place path) :
    ((writeText path text).left session).disk.files place = session.disk.files place := by
  rw [writeText, left_change]
  split
  · next written => rw [(Disk.writeFile_becomes sound written).files, Function.update_of_ne elsewhere]
  · rfl

/-- What a batch that may not overwrite keeps of the disk that it begins with. -/
structure KeepsFile (begun : Disk) (destination : Path) (place : Location) (session : Session) :
    Prop where
  becomes : begun.Becomes session.disk session.disk.files
  file : session.disk.files place = begun.files place
  open_ : destination.text = "" ∨ session.disk.Leads destination

theorem KeepsFile.leaves {begun : Disk} (sound : begun.Sound)
    (noOverwrite : converter.overwrite = false)
    (keeps : KeepsFile begun destination place visit.session) (named : visit.folder.name ≠ "")
    (there : begun.files place ≠ none) :
    KeepsFile begun destination place (converter.leaves destination visit) := by
  have nowSound := keeps.becomes.sound sound
  refine ⟨keeps.becomes.trans (leaves_becomes nowSound), ?_, ?_⟩
  · rw [← keeps.file] at there ⊢
    exact convert_spares nowSound noOverwrite keeps.open_ (fun _ known => target?_nonempty named known)
      there
  · exact keeps.open_.imp_right (leaves_leads nowSound noOverwrite)

theorem convertAll_keepsFile (sound : session.disk.Sound) (noOverwrite : converter.overwrite = false)
    (there : session.disk.files place ≠ none)
    (notIndex : place ≠ session.disk.place (Batch.indexPath destination)) :
    ((converter.convertAll source destination).left session).disk.files place =
      session.disk.files place := by
  have created : session.disk.Becomes ((createFolders destination).left session).disk
      session.disk.files := createFolders_keepsFiles destination session sound
  obtain same | same | ⟨recipes, text, made, found, same⟩ :=
    converter.convertAll_left source destination session
  · rw [same]
  · rw [same, created.files]
  · have open_ := (Disk.createFolders_leads made).imp_right And.left
    generalize (createFolders destination).left session = begun at *
    have begunSound := created.sound sound
    have start : KeepsFile session.disk destination place begun :=
      ⟨by simpa only [created.files] using created, by rw [created.files], open_⟩
    have ended := convertEach_keeps {} start fun visit member keeps =>
      keeps.leaves sound noOverwrite (visits_placed begunSound found visit member).1 there
    -- The index is written last, and only at its own place.
    rw [same, writeText_file (ended.becomes.sound sound), ended.file]
    rwa [ended.becomes.place]

/-- Without overwriting, a batch keeps every file but its index, and a single conversion every file
outside of the recipe's folder. If the destination is a folder, it keeps those in there too. -/
theorem existing_files_stay (sound : session.disk.Sound) (noOverwrite : converter.overwrite = false)
    (source destination : Path) :
    (∀ place, session.disk.files place ≠ none →
      (session.disk.isFolder destination = false → ∀ target,
        converter.target? source destination session = some target →
          ¬ session.disk.place target <+: place) →
      ((converter.convert source destination).left session).disk.files place =
        session.disk.files place) ∧
    ∀ place, session.disk.files place ≠ none →
      place ≠ session.disk.place (Batch.indexPath destination) →
      ((converter.convertAll source destination).left session).disk.files place =
        session.disk.files place :=
  ⟨fun _ => convert_keepsFile sound noOverwrite, fun _ => convertAll_keepsFile sound noOverwrite⟩

/-- A recipe with notes, next to a destination in which the notes of an older conversion were changed. -/
def changedNotes : Session where
  disk := {
    root := .folder "recipes"
      (.folder "recipe"
        (.file "recipe_metadata.toml" ⟨"[agpVersion]\nmin = \"8.1.0\"\n".toUTF8, false⟩
          (.file "notes.md" ⟨"notes".toUTF8, false⟩ .empty))
        .empty)
      (.folder "out" (.folder "recipe" (.file "notes.md" ⟨"changed".toUTF8, false⟩ .empty) .empty)
        .empty)
    here := [] }

def sparing : Converter where
  mode := .source
  context := ⟨{}, .empty⟩

theorem changedNotes_sound : changedNotes.disk.Sound := ⟨by decide, by simp [changedNotes]⟩

theorem existing_files_stay_changedNotes :
    ((sparing.convert ⟨"recipes/recipe"⟩ ⟨"out"⟩).left changedNotes).disk.files
        ["out", "recipe", "notes.md"] = some ⟨"changed".toUTF8, false⟩ ∧
      ((sparing.convertAll ⟨"recipes"⟩ ⟨"out"⟩).left changedNotes).disk.files
        ["out", "recipe", "notes.md"] = some ⟨"changed".toUTF8, false⟩ := by
  have changed : changedNotes.disk.files ["out", "recipe", "notes.md"] =
      some ⟨"changed".toUTF8, false⟩ := by decide +kernel
  have there : changedNotes.disk.files ["out", "recipe", "notes.md"] ≠ none := by
    rw [changed]
    exact Option.some_ne_none _
  have folder : changedNotes.disk.isFolder ⟨"out"⟩ = true := by decide +kernel
  constructor
  · rw [(existing_files_stay changedNotes_sound rfl _ _).1 _ there, changed]
    intro absent
    rw [folder] at absent
    cases absent
  · rw [(existing_files_stay changedNotes_sound rfl _ _).2 _ there (by decide +kernel), changed]

theorem existing_files_stay_fails :
    ¬ ∀ (converter : Converter) (source destination : Path) (session : Session),
      session.disk.Sound → converter.overwrite = false →
      (∀ place, session.disk.files place ≠ none →
        ((converter.convert source destination).left session).disk.files place =
          session.disk.files place) ∧
      ∀ place, session.disk.files place ≠ none →
        place ≠ session.disk.place (Batch.indexPath destination) →
        ((converter.convertAll source destination).left session).disk.files place =
          session.disk.files place := by
  intro stay
  -- The destination goes through a folder that is missing, so that nothing can be seen there.
  have lost := (stay sparing ⟨"recipes/recipe"⟩ ⟨"new/../out"⟩ changedNotes changedNotes_sound rfl).1
    ["out", "recipe", "notes.md"]
  revert lost
  decide +kernel

end Converter
end Cookbook
