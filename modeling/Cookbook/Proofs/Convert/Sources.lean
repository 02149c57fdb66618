import Cookbook.Proofs.Convert.Lasting

/-!
What conversions leave of the recipes that they are made from. Files of a source are safe if no recipe is
written where they are, and without overwriting they are safe wherever recipes are written.
-/

namespace Cookbook

open Action

namespace Disk

variable {d between made : Disk} {folder : Location} {source destination recipe : Path}
  {name : Descriptor → String}

/-- That the files at and below a place are still there. -/
def Spares (folder : Location) (d made : Disk) : Prop :=
  ∀ place, folder <+: place → d.files place ≠ none → made.files place = d.files place

theorem Spares.refl (d : Disk) : d.Spares folder d := fun _ _ _ => rfl

theorem Spares.trans (first : d.Spares folder between) (second : between.Spares folder made) :
    d.Spares folder made := by
  intro place below there
  have kept := first place below there
  rw [second place below (by rwa [kept]), kept]

theorem spares_of_files (same : made.files = d.files) : d.Spares folder made :=
  fun _ _ _ => by rw [same]

/-- That no file is in both folders. -/
def NoneShared (d : Disk) (source other : Path) : Prop :=
  ∀ place, d.place source <+: place → d.place other <+: place → d.files place = none

/-- That the descriptor in a recipe's folder, if it can be read, does not have the recipe written where
files of the source are. -/
def AimsApart (d : Disk) (source destination recipe : Path) (name : Descriptor → String) : Prop :=
  ∀ descriptor, d.Describes recipe descriptor →
    d.NoneShared source (destination.joinName (name descriptor))

/-- That a disk holds only files that another one holds too. -/
structure HoldsNoMore (d made : Disk) : Prop where
  place : ∀ p, made.place p = d.place p
  files : ∀ place, made.files place ≠ none → d.files place = made.files place

theorem NoneShared.mono (apart : d.NoneShared source recipe) (fewer : d.HoldsNoMore made) :
    made.NoneShared source recipe := by
  intro place below belowOther
  by_contra there
  rw [fewer.place] at below belowOther
  rw [← fewer.files place there] at there
  exact there (apart place below belowOther)

theorem AimsApart.mono (apart : d.AimsApart source destination recipe name)
    (fewer : d.HoldsNoMore made) : made.AimsApart source destination recipe name := by
  intro descriptor describes
  obtain ⟨data, content, lookup, here, decoded, parsed⟩ := describes
  have present := fewer.files _ (by rw [here]; exact Option.some_ne_none data)
  rw [here, fewer.place] at present
  exact (apart descriptor ⟨data, content, lookup, present, decoded, parsed⟩).mono fewer

theorem NoneShared.of_apart {name : String} (proper : ProperName name)
    (apart : Apart (d.place source) (d.place destination)) :
    d.NoneShared source (destination.joinName name) := by
  intro place below belowTarget
  rw [place_joinName _ _ proper] at belowTarget
  have belowDestination := (List.prefix_append _ _).trans belowTarget
  obtain above | inside := List.prefix_or_prefix_of_prefix below belowDestination
  · exact absurd above apart.above
  · exact absurd inside apart.below

theorem NoneShared.outside (apart : d.NoneShared source recipe) {place : Location}
    (below : d.place source <+: place) (there : d.files place ≠ none) :
    ¬ d.place recipe <+: place :=
  fun belowOther => there (apart place below belowOther)

end Disk

namespace Converter

variable {converter : Converter} {begun : Disk} {source destination folder : Path}
  {session : Session} {visit : Visit}

/-! ## Single conversions -/

theorem convert_sparesSource (sound : begun.Sound)
    (becomes : begun.Becomes session.disk session.disk.files)
    (kept : begun.Spares (begun.place source) session.disk)
    (apart : ∀ descriptor, session.disk.Describes folder descriptor →
      begun.NoneShared source (destination.joinName (converter.mode.destinationName descriptor))) :
    begun.Spares (begun.place source) ((converter.convert folder destination).left session).disk := by
  obtain same | ⟨target, known, confined⟩ := converter.convert_changes folder destination session
  · rwa [same]
  · obtain ⟨descriptor, loaded, rfl⟩ := Option.map_eq_some_iff.mp known
    have shares := apart descriptor (Descriptor.load_describes (run_eq_ok loaded))
    intro place below there
    have outside := shares.outside below there
    rw [← becomes.place] at outside
    rw [(confined (becomes.sound sound)).outside place outside, kept place below there]

/-- A single conversion keeps the files of its source if the recipe is not written where they are, or if
the destination is a folder and nothing is overwritten. -/
theorem convert_keepsSource (sound : session.disk.Sound)
    (careful : converter.overwrite = true ∨ session.disk.isFolder destination = false →
      session.disk.AimsApart source destination source converter.mode.destinationName) :
    session.disk.Spares (session.disk.place source)
      ((converter.convert source destination).left session).disk := by
  by_cases risky : converter.overwrite = true ∨ session.disk.isFolder destination = false
  · exact convert_sparesSource sound (.refl sound) (.refl _) (careful risky)
  · rw [not_or, Bool.not_eq_true, Bool.not_eq_false] at risky
    obtain ⟨accepted, leads⟩ := Disk.isFolder_iff.mp risky.2
    intro place _ there
    refine convert_spares sound risky.1 (.inr leads) ?_ there
    intro target known
    obtain ⟨descriptor, loaded, rfl⟩ := Option.map_eq_some_iff.mp known
    have single := (Mode.destinationName_of_load (run_eq_ok loaded) converter.mode).1
    exact Path.text_joinName_of_text (Disk.text_ne_empty accepted) single

/-! ## Batches -/

/-- What a batch keeps from the disk that it begins with. -/
structure KeepsSource (converter : Converter) (begun : Disk) (source destination : Path)
    (session : Session) : Prop where
  becomes : begun.Becomes session.disk session.disk.files
  spares : begun.Spares (begun.place source) session.disk
  leads : converter.overwrite = false → begun.Leads destination → session.disk.Leads destination

/-- That a recipe cannot be written over files of the source. -/
def Careful (converter : Converter) (begun : Disk) (source destination recipe : Path) : Prop :=
  converter.overwrite = false ∧ begun.Leads destination ∨
    begun.AimsApart source destination recipe converter.mode.destinationName

theorem KeepsSource.describes {descriptor : Descriptor}
    (keeps : converter.KeepsSource begun source destination session)
    (below : begun.place source <+: begun.place folder)
    (described : begun.files (begun.place folder ++ [Descriptor.fileName]) ≠ none)
    (describes : session.disk.Describes folder descriptor) : begun.Describes folder descriptor := by
  refine describes.congr (keeps.becomes.place _).symm ?_
  rw [keeps.becomes.place]
  exact (keeps.spares _ (below.trans (List.prefix_append _ _)) described).symm

theorem KeepsSource.leaves (sound : begun.Sound)
    (keeps : converter.KeepsSource begun source destination visit.session)
    (careful : converter.Careful begun source destination visit.folder)
    (named : visit.folder.name ≠ "") (below : begun.place source <+: begun.place visit.folder)
    (described : begun.files (begun.place visit.folder ++ [Descriptor.fileName]) ≠ none) :
    converter.KeepsSource begun source destination (converter.leaves destination visit) := by
  have nowSound := keeps.becomes.sound sound
  refine ⟨keeps.becomes.trans (leaves_becomes nowSound), ?_, ?_⟩
  · obtain ⟨noOverwrite, leads⟩ | apart := careful
    · intro place inside there
      have kept := keeps.spares place inside there
      rw [leaves_file nowSound named (fun _ => keeps.leads noOverwrite leads) (by simp [noOverwrite])
        (by rwa [kept]), kept]
    · exact convert_sparesSource sound keeps.becomes keeps.spares fun descriptor describes =>
        apart descriptor (keeps.describes below described describes)
  · exact fun noOverwrite leads => leaves_leads nowSound noOverwrite (keeps.leads noOverwrite leads)

theorem visits_keepSource {recipes : List Path} (sound : session.disk.Sound)
    (found : findRecipes session.disk source = .ok recipes)
    (careful : ∀ visit ∈ converter.visits destination recipes session,
      converter.Careful session.disk source destination visit.folder) :
    ∀ visit ∈ converter.visits destination recipes session,
      converter.KeepsSource session.disk source destination visit.session →
        converter.KeepsSource session.disk source destination (converter.leaves destination visit) := by
  intro visit member keeps
  obtain ⟨named, below⟩ := visits_placed sound found visit member
  obtain ⟨-, -, -, -, described⟩ := visits_found sound found visit member
  exact keeps.leaves sound (careful visit member) named below described

theorem KeepsSource.refl (sound : session.disk.Sound) :
    converter.KeepsSource session.disk source destination session :=
  ⟨.refl sound, .refl _, fun _ leads => leads⟩

theorem Careful.mono {session begun : Session} {recipe : Path}
    (careful : converter.Careful session.disk source destination recipe)
    (same : begun.disk = { session.disk with root := begun.disk.root })
    (folders : session.disk.KeepsFolders begun.disk) (fewer : session.disk.HoldsNoMore begun.disk) :
    converter.Careful begun.disk source destination recipe := by
  obtain ⟨noOverwrite, leads⟩ | apart := careful
  · exact .inl ⟨noOverwrite, leads.mono same folders⟩
  · exact .inr (apart.mono fewer)

/-- Where no recipe is written over files of the source, each is still described, when it is visited, as it
was before the batch. -/
theorem history_describes {after : Session} {batch : Batch} (sound : session.disk.Sound)
    (run : (converter.convertAll source destination).run session = .ok batch after)
    (apart : ∀ visit ∈ converter.history source destination session,
      session.disk.AimsApart source destination visit.folder converter.mode.destinationName) :
    ∀ visit ∈ converter.history source destination session, ∀ descriptor,
      visit.session.disk.Describes visit.folder descriptor →
        session.disk.Describes visit.folder descriptor := by
  obtain ⟨begun, recipes, creating, found, history, -⟩ := convertAll_eq_ok run
  have created := Copy.createFolders_becomes sound creating
  have begunSound := created.sound sound
  have fewer : session.disk.HoldsNoMore begun.disk :=
    ⟨created.place, fun _ _ => by rw [created.files]⟩
  rw [history] at apart ⊢
  have kept := visits_session (P := converter.KeepsSource begun.disk source destination)
    (.refl begunSound) (visits_keepSource begunSound found fun visit member =>
      .inr ((apart visit member).mono fewer))
  intro visit member descriptor describes
  obtain ⟨-, below⟩ := visits_placed begunSound found visit member
  obtain ⟨-, -, -, -, described⟩ := visits_found begunSound found visit member
  have before := (kept visit member).describes below described describes
  exact before.congr (created.place _).symm (by rw [created.files])

/-- A batch keeps the files of the source if the index is not written where they are and each recipe is
converted with care. -/
theorem convertAll_keepsSource (sound : session.disk.Sound)
    (index : session.disk.NoneShared source (Batch.indexPath destination))
    (careful : ∀ names, names ≠ [] →
      converter.Careful session.disk source destination (source.joinNames names)) :
    session.disk.Spares (session.disk.place source)
      ((converter.convertAll source destination).left session).disk := by
  have created : session.disk.Becomes ((createFolders destination).left session).disk
      session.disk.files := createFolders_keepsFiles destination session sound
  have folders : session.disk.KeepsFolders ((createFolders destination).left session).disk :=
    createFolders_keepsFolders destination session
  have spared : session.disk.Spares (session.disk.place source)
      ((createFolders destination).left session).disk := Disk.spares_of_files created.files
  -- The batch stops before any visit, or visits all recipes and then writes the index.
  obtain same | same | ⟨recipes, text, -, found, same⟩ :=
    converter.convertAll_left source destination session
  · rw [same]
    exact .refl _
  · rw [same]
    exact spared
  · generalize (createFolders destination).left session = begun at *
    have fewer : session.disk.HoldsNoMore begun.disk :=
      ⟨created.place, fun _ _ => by rw [created.files]⟩
    have begunSound := created.sound sound
    have steps := visits_keepSource begunSound found fun visit member => by
      obtain ⟨names, nonempty, proper, folder, -⟩ := visits_found begunSound found visit member
      rw [folder]
      exact (careful names nonempty).mono created.same folders fewer
    have ended := convertEach_keeps {} (KeepsSource.refl begunSound) steps
    have endedSound := ended.becomes.sound begunSound
    intro place below there
    have kept := spared.trans (created.place source ▸ ended.spares) place below there
    have outside := index.outside below there
    have indexing : Keeps (Confined (Batch.indexPath destination) false)
        (writeText (Batch.indexPath destination) text) :=
      writeText_confined (fun _ => List.prefix_rfl) text
    rw [same, (indexing _ endedSound).outside place, kept]
    rwa [ended.becomes.place, created.place]

end Converter

end Cookbook
