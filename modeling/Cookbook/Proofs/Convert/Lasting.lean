import Cookbook.Proofs.Convert.History
import Cookbook.Proofs.Placeholder.Stripping

/-!
What lasts of the conversions in a batch. A file that a conversion leaves is there at the end unless it
lies where the index is written or where a later visit may overwrite.
-/

namespace Cookbook

open Action

namespace Converter

variable {converter : Converter} {source destination : Path} {session after : Session}
  {batch : Batch} {earlier later : List Visit} {visit : Visit} {conversion : Conversion}
  {place : Location}

/-! ## Visits -/

theorem leaves_becomes (sound : visit.session.disk.Sound) :
    visit.session.disk.Becomes (converter.leaves destination visit).disk
      (converter.leaves destination visit).disk.files := by
  obtain same | ⟨target, -, confined⟩ :=
    converter.convert_changes visit.folder destination visit.session
  · have sameDisk : (converter.leaves destination visit).disk = visit.session.disk := same
    rw [sameDisk]
    exact .refl sound
  · exact (confined sound).becomes

theorem leaves_leads (sound : visit.session.disk.Sound) (noOverwrite : converter.overwrite = false)
    (leads : visit.session.disk.Leads destination) :
    (converter.leaves destination visit).disk.Leads destination := by
  obtain same | ⟨target, -, confined⟩ :=
    converter.convert_changes visit.folder destination visit.session
  · have sameDisk : (converter.leaves destination visit).disk = visit.session.disk := same
    rwa [sameDisk]
  · rw [noOverwrite] at confined
    have changes := confined sound
    exact leads.mono changes.becomes.same changes.keepsFolders

theorem target?_nonempty (named : visit.folder.name ≠ "") {target : Path}
    (known : converter.target? visit.folder destination visit.session = some target) :
    target.text ≠ "" := by
  obtain ⟨descriptor, loaded, rfl⟩ := Option.map_eq_some_iff.mp known
  obtain ⟨single, nonempty⟩ :=
    Mode.destinationName_of_load (run_eq_ok loaded) converter.mode
  exact Path.text_joinName_ne_empty destination (nonempty named) single

theorem leaves_file (sound : visit.session.disk.Sound) (named : visit.folder.name ≠ "")
    (leads : converter.overwrite = false → visit.session.disk.Leads destination)
    (outside : converter.overwrite = true → ∀ target,
      converter.target? visit.folder destination visit.session = some target →
        ¬ visit.session.disk.place target <+: place)
    (there : visit.session.disk.files place ≠ none) :
    (converter.leaves destination visit).disk.files place = visit.session.disk.files place := by
  cases overwrite : converter.overwrite with
  | false =>
      exact converter.convert_spares sound overwrite (.inr (leads overwrite))
        (fun _ known => target?_nonempty named known) there
  | true =>
      obtain same | ⟨target, known, confined⟩ :=
        converter.convert_changes visit.folder destination visit.session
      · exact congrArg (Disk.files · place) same
      · exact (confined sound).outside place (outside overwrite target known)

theorem leaves_hasFolder (sound : visit.session.disk.Sound)
    (outside : converter.overwrite = true → ∀ target,
      converter.target? visit.folder destination visit.session = some target →
        ¬ visit.session.disk.place target <+: place)
    (there : visit.session.disk.root.HasFolder place) :
    (converter.leaves destination visit).disk.root.HasFolder place := by
  obtain same | ⟨target, known, confined⟩ :=
    converter.convert_changes visit.folder destination visit.session
  · have sameDisk : (converter.leaves destination visit).disk = visit.session.disk := same
    rwa [sameDisk]
  · exact (confined sound).folders place (fun overwrite => outside overwrite target known) there

/-! ## Conversions -/

theorem conversion_destination
    (converted : converter.conversion? destination visit = some conversion) :
    ∃ loaded, (Descriptor.load visit.folder converter.context).run visit.session =
        .ok conversion.descriptor loaded ∧
      conversion.destination =
        destination.joinName (converter.mode.destinationName conversion.descriptor) := by
  obtain ⟨run, -⟩ := conversion?_eq_some.mp converted
  obtain ⟨loaded, cleared, load, named, -⟩ := convert_eq_ok run
  exact ⟨loaded, load, named⟩

theorem conversion_isFolder (sound : visit.session.disk.Sound) (named : visit.folder.name ≠ "")
    (converted : converter.conversion? destination visit = some conversion) :
    (converter.leaves destination visit).disk.isFolder conversion.destination = true := by
  obtain ⟨run, done⟩ := conversion?_eq_some.mp converted
  obtain ⟨loaded, cleared, load, name, clearing, outcome⟩ := convert_eq_ok run
  obtain ⟨single, nonempty⟩ := Mode.destinationName_of_load load converter.mode
  simp only [done] at outcome
  obtain ⟨-, plan, copied, -, copying, rest⟩ := outcome
  have sameDisk : loaded.disk = visit.session.disk := (Descriptor.load_sameDisk _ _).ok load
  rw [← sameDisk] at sound
  have clearedSound : cleared.disk.Sound :=
    ((clearDestination_confined _).ok clearing sound).becomes.sound sound
  have folder : copied.disk.isFolder conversion.destination = true := by
    apply Copy.recipe_isFolder clearedSound _ _ copying
    · rw [name]
      exact Path.text_joinName_ne_empty destination (nonempty named) single
    · rw [name]
      exact Path.endsInSlash_joinName (nonempty named) single
  split at rest
  · have copiedSound : copied.disk.Sound :=
      (((Copy.recipe_confined _ _).ok copying : Confined _ false _ _) clearedSound).becomes.sound
        clearedSound
    have wrapping : Confined _ false _ _ := (addWrapper_confined _).ok rest
    have changes := wrapping copiedSound
    obtain ⟨accepted, leads⟩ := Disk.isFolder_iff.mp folder
    refine Disk.isFolder_iff.mpr ⟨?_, leads.mono changes.becomes.same changes.keepsFolders⟩
    rwa [changes.becomes.refuse?]
  · rwa [← rest]

theorem conversion_leads (sound : visit.session.disk.Sound) (named : visit.folder.name ≠ "")
    (converted : converter.conversion? destination visit = some conversion) :
    (converter.leaves destination visit).disk.Leads destination := by
  obtain ⟨loaded, load, name⟩ := conversion_destination converted
  have folder := conversion_isFolder sound named converted
  rw [name] at folder
  exact (Disk.isFolder_iff.mp folder).2.of_joinName
    (Mode.destinationName_of_load load converter.mode).1

/-! ## Batches -/

theorem visits_become (converter : Converter) (destination : Path) (folders : List Path)
    {begun : Session} (sound : begun.disk.Sound) :
    ∀ visit ∈ converter.visits destination folders begun,
      begun.disk.Becomes visit.session.disk visit.session.disk.files := by
  apply visits_session (P := fun session => begun.disk.Becomes session.disk session.disk.files)
  · exact .refl sound
  · exact fun visit _ becomes => becomes.trans (leaves_becomes (becomes.sound sound))

theorem convertEach_becomes {begun : Session} (sound : begun.disk.Sound) (converter : Converter)
    (destination : Path) (folders : List Path) :
    let ended := (converter.convertEach destination {} folders).left begun
    begun.disk.Becomes ended.disk ended.disk.files :=
  convertEach_keeps (P := fun current => begun.disk.Becomes current.disk current.disk.files) {}
    (.refl sound) fun _ _ becomes => becomes.trans (leaves_becomes (becomes.sound sound))

theorem history_reached (sound : session.disk.Sound)
    (run : (converter.convertAll source destination).run session = .ok batch after) :
    ∀ visit ∈ converter.history source destination session,
      session.disk.Becomes visit.session.disk visit.session.disk.files ∧ visit.folder.name ≠ "" := by
  obtain ⟨begun, recipes, creating, found, history, -⟩ := convertAll_eq_ok run
  have created := Copy.createFolders_becomes sound creating
  have begunSound := created.sound sound
  rw [history]
  intro visit member
  exact ⟨created.trans (converter.visits_become destination recipes begunSound visit member),
    (visits_placed begunSound found visit member).1⟩

theorem index_written (sound : session.disk.Sound)
    (run : (converter.convertAll source destination).run session = .ok batch after) :
    ∃ data, after.disk.files (session.disk.place (Batch.indexPath destination)) = some data ∧
      data.bytes = (Index.render batch.index (converter.mode.target?.map (·.release))).toUTF8 := by
  obtain ⟨begun, recipes, creating, -, -, -, writing⟩ := convertAll_eq_ok run
  have created := Copy.createFolders_becomes sound creating
  have ended := created.trans (convertEach_becomes (created.sound sound) converter destination recipes)
  obtain ⟨disk, written, rfl⟩ := change_eq_ok.mp writing
  have indexed := Disk.writeFile_becomes (ended.sound sound) written
  rw [indexed.files, ended.place, Function.update_self]
  exact ⟨_, rfl, rfl⟩

theorem history_ends {P : Session → Prop}
    (run : (converter.convertAll source destination).run session = .ok batch after)
    (split : converter.history source destination session = earlier ++ visit :: later)
    (start : P (converter.leaves destination visit))
    (steps : ∀ other ∈ later, P other.session → P (converter.leaves destination other)) :
    ∃ ended, P ended ∧ (writeText (Batch.indexPath destination)
      (Index.render batch.index (converter.mode.target?.map (·.release)))).run ended =
        .ok () after := by
  obtain ⟨begun, recipes, -, -, history, -, writing⟩ := convertAll_eq_ok run
  rw [history] at split
  exact ⟨_, convertEach_keeps_after {} split start steps, writing⟩

/-- The folder of a recipe that is converted is there at the end, unless a later visit may overwrite it. -/
theorem converted_folder_lasts (sound : session.disk.Sound)
    (run : (converter.convertAll source destination).run session = .ok batch after)
    (split : converter.history source destination session = earlier ++ visit :: later)
    (converted : converter.conversion? destination visit = some conversion)
    (proper : ProperName (converter.mode.destinationName conversion.descriptor))
    (spared : converter.overwrite = true → ∀ other ∈ later, ∀ target,
      converter.target? other.folder destination other.session = some target →
        ¬ session.disk.place target <+: session.disk.place conversion.destination) :
    after.disk.isFolder conversion.destination = true := by
  have reached := history_reached sound run
  rw [split] at reached
  obtain ⟨becomes, named⟩ := reached visit (by simp)
  have visitSound := becomes.sound sound
  have left : session.disk.Becomes (converter.leaves destination visit).disk _ :=
    becomes.trans (leaves_becomes visitSound)
  obtain ⟨accepted, leads⟩ := Disk.isFolder_iff.mp (conversion_isFolder visitSound named converted)
  have folder := leads.folder
  rw [left.place] at folder
  have ends := history_ends (P := fun current =>
      session.disk.Becomes current.disk current.disk.files ∧
      current.disk.root.HasFolder (session.disk.place conversion.destination)) run split
    ⟨left, folder⟩ ?_
  · obtain ⟨ended, ⟨becomes, there⟩, writing⟩ := ends
    obtain ⟨disk, written, rfl⟩ := change_eq_ok.mp writing
    obtain ⟨loaded, -, name⟩ := conversion_destination converted
    have indexed := Disk.writeFile_becomes (becomes.sound sound) written
    have keeps := (Disk.writeFile_sameFolders written).keeps
    -- As the index could be written, the way to the destination is still open.
    have destinationLeads : ended.disk.Leads destination :=
      .of_writeFile (by decide) written
    have usable := leads.usable
    rw [left.place, name, Disk.place_joinName _ _ proper] at usable
    rw [name, Disk.place_joinName _ _ proper] at there
    rw [left.refuse?] at accepted
    refine Disk.isFolder_iff.mpr ⟨?_, ?_⟩
    · rwa [indexed.refuse?, becomes.refuse?]
    · rw [name]
      refine (destinationLeads.mono indexed.same keeps).joinName proper ?_ (usable _ (by simp))
      rw [indexed.place, becomes.place]
      exact keeps _ there
  · intro other member ⟨becomes, there⟩
    have otherSound := becomes.sound sound
    refine ⟨becomes.trans (leaves_becomes otherSound), leaves_hasFolder otherSound ?_ there⟩
    intro overwrite target known
    rw [becomes.place]
    exact spared overwrite other member target known

/-- Of the recipes that a batch reports as converted, every file that the conversion leaves in its folder
is there at the end, unless the index is written there or a later visit may overwrite the place. -/
theorem converted_files_last (sound : session.disk.Sound)
    (run : (converter.convertAll source destination).run session = .ok batch after) :
    batch.converted = ((converter.history source destination session).filter fun visit =>
      (converter.conversion? destination visit).isSome).map (·.folder.name) ∧
    ∀ earlier visit later conversion rest,
      converter.history source destination session = earlier ++ visit :: later →
      converter.conversion? destination visit = some conversion →
      let place := session.disk.place conversion.destination ++ rest
      (converter.leaves destination visit).disk.files place ≠ none →
      place ≠ session.disk.place (Batch.indexPath destination) →
      (converter.overwrite = true → ∀ other ∈ later, ∀ target,
        converter.target? other.folder destination other.session = some target →
          ¬ session.disk.place target <+: place) →
      after.disk.files place = (converter.leaves destination visit).disk.files place := by
  constructor
  · obtain ⟨begun, recipes, -, -, history, reported, -⟩ := convertAll_eq_ok run
    rw [history, reported, converted_foldl]
    rfl
  intro earlier visit later conversion rest split converted place there notIndex spared
  have reached := history_reached sound run
  rw [split] at reached
  obtain ⟨becomes, named⟩ := reached visit (by simp)
  have visitSound := becomes.sound sound
  -- From the visit on, its files are there, and while nothing is overwritten so is the destination.
  have ends := history_ends (P := fun current =>
      session.disk.Becomes current.disk current.disk.files ∧
      current.disk.files place = (converter.leaves destination visit).disk.files place ∧
      (converter.overwrite = false → current.disk.Leads destination)) run split ?_ ?_
  · obtain ⟨ended, ⟨becomes, kept, -⟩, writing⟩ := ends
    obtain ⟨disk, written, rfl⟩ := change_eq_ok.mp writing
    have indexed := Disk.writeFile_becomes (becomes.sound sound) written
    rw [indexed.files, becomes.place, Function.update_of_ne notIndex, kept]
  · refine ⟨becomes.trans (leaves_becomes visitSound), rfl, fun _ => ?_⟩
    exact conversion_leads visitSound named converted
  · intro other member ⟨becomes, kept, leads⟩
    have otherSound := becomes.sound sound
    have otherNamed := (reached other (by simp [member])).2
    refine ⟨becomes.trans (leaves_becomes otherSound), ?_, ?_⟩
    · rw [leaves_file otherSound otherNamed leads, kept]
      · intro overwrite target known
        rw [becomes.place]
        exact spared overwrite other member target known
      · rwa [kept]
    · exact fun noOverwrite => leaves_leads otherSound noOverwrite (leads noOverwrite)

/-- Two recipes that ask for the same folder, the second of which is for older releases only. -/
def sharedFolder : Session where
  disk := {
    root := .folder "recipes"
      (.folder "new"
        (.file "recipe_metadata.toml"
          ⟨"destinationFolder = \"shared\"\n[agpVersion]\nmin = \"8.1.0\"\n".toUTF8, false⟩ .empty)
        (.folder "old"
          (.file "recipe_metadata.toml"
            ⟨"destinationFolder = \"shared\"\n[agpVersion]\nmin = \"8.0.0\"\nmax = \"8.0\"\n".toUTF8,
              false⟩ .empty)
          .empty))
      .empty
    here := [] }

def releasing (overwrite : Bool) : Converter where
  mode := .release (.localOnly ⟨8, 1, 0, .final, 0⟩ "" "")
  context := singleLineContext
  overwrite
  withWrapper := false

def newInShared : Conversion where
  descriptor := ⟨"new", "new", "shared", ⟨8, 1, 0, .final, 0⟩, none, [], none, []⟩
  destination := ⟨"out/shared"⟩
  outcome := .converted

/-- The visit of the first of the two recipes. -/
def newVisit : Visit := ⟨⟨"recipes/new"⟩, (createFolders ⟨"out"⟩).left sharedFolder⟩

theorem sharedFolder_sound : sharedFolder.disk.Sound := ⟨by decide, by simp [sharedFolder]⟩

theorem sharedFolder_found :
    findRecipes newVisit.session.disk ⟨"recipes"⟩ = .ok [⟨"recipes/new"⟩, ⟨"recipes/old"⟩] :=
  except_toOption_eq_some.mp (by decide +kernel)

theorem sharedFolder_history (overwrite : Bool) :
    ∃ later, (releasing overwrite).history ⟨"recipes"⟩ ⟨"out"⟩ sharedFolder =
      [] ++ newVisit :: later := by
  refine ⟨[⟨⟨"recipes/old"⟩, (releasing overwrite).leaves ⟨"out"⟩ newVisit⟩], ?_⟩
  have found := sharedFolder_found
  unfold newVisit at found
  rw [history, found]
  rfl

/-- The first recipe is converted; the second one is skipped if its folder may be cleared for it, and so
the file that the first one left is gone. -/
theorem sharedFolder_converted (overwrite : Bool) :
    (releasing overwrite).conversion? ⟨"out"⟩ newVisit = some newInShared ∧
      (((releasing overwrite).leaves ⟨"out"⟩ newVisit).disk.files
        ["out", "shared", "recipe_metadata.toml"]).isSome ∧
      ∃ batch after,
        ((releasing overwrite).convertAll ⟨"recipes"⟩ ⟨"out"⟩).run sharedFolder = .ok batch after ∧
        batch.skipped = (if overwrite then ["old"] else []) ∧
        (after.disk.files ["out", "shared", "recipe_metadata.toml"]).isSome = !overwrite := by
  obtain ⟨converted, written, given, kept⟩ :
      let batch := (releasing overwrite).convertAll ⟨"recipes"⟩ ⟨"out"⟩
      (releasing overwrite).conversion? ⟨"out"⟩ newVisit = some newInShared ∧
        (((releasing overwrite).leaves ⟨"out"⟩ newVisit).disk.files
          ["out", "shared", "recipe_metadata.toml"]).isSome ∧
        (batch.value? sharedFolder).map (·.skipped) = some (if overwrite then ["old"] else []) ∧
        ((batch.left sharedFolder).disk.files ["out", "shared", "recipe_metadata.toml"]).isSome =
          !overwrite := by cases overwrite <;> decide +kernel
  obtain ⟨batch, given, skipped⟩ := Option.map_eq_some_iff.mp given
  exact ⟨converted, written, batch, _, run_eq_ok given, skipped, kept⟩

theorem converted_files_last_sharedFolder :
    ∃ batch after later,
      ((releasing false).convertAll ⟨"recipes"⟩ ⟨"out"⟩).run sharedFolder = .ok batch after ∧
      (releasing false).history ⟨"recipes"⟩ ⟨"out"⟩ sharedFolder = [] ++ newVisit :: later ∧
      (releasing false).conversion? ⟨"out"⟩ newVisit = some newInShared ∧
      after.disk.files ["out", "shared", "recipe_metadata.toml"] ≠ none := by
  obtain ⟨converted, written, batch, after, run, -, -⟩ := sharedFolder_converted false
  obtain ⟨later, split⟩ := sharedFolder_history false
  refine ⟨batch, after, later, run, split, converted, ?_⟩
  have last := (converted_files_last sharedFolder_sound run).2 [] newVisit later newInShared
    ["recipe_metadata.toml"] split converted
  have place : sharedFolder.disk.place newInShared.destination = ["out", "shared"] := by decide
  rw [place] at last
  have there := Option.isSome_iff_ne_none.mp written
  have kept := last there (by decide +kernel) fun overwrite => nomatch overwrite
  exact fun lost => there (kept.symm.trans lost)

theorem converted_files_last_fails :
    ¬ ∀ (converter : Converter) (source destination : Path) (session after : Session) (batch : Batch),
      session.disk.Sound → Apart (session.disk.place source) (session.disk.place destination) →
      (converter.convertAll source destination).run session = .ok batch after →
      ∀ visit ∈ converter.history source destination session, ∀ conversion rest,
        converter.conversion? destination visit = some conversion →
        let place := session.disk.place conversion.destination ++ rest
        (converter.leaves destination visit).disk.files place ≠ none →
        after.disk.files place = (converter.leaves destination visit).disk.files place := by
  intro last
  obtain ⟨converted, written, batch, after, run, -, lost⟩ := sharedFolder_converted true
  obtain ⟨later, split⟩ := sharedFolder_history true
  have kept := last _ _ _ _ _ _ sharedFolder_sound (by decide) run newVisit
    (by rw [split]; simp) newInShared ["recipe_metadata.toml"] converted
  have place : sharedFolder.disk.place newInShared.destination = ["out", "shared"] := by decide
  rw [place] at kept
  rw [List.cons_append, List.cons_append, List.nil_append] at kept
  rw [kept (Option.isSome_iff_ne_none.mp written), written] at lost
  cases lost

end Converter

end Cookbook
