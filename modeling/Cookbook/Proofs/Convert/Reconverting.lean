import Cookbook.Proofs.Convert.Overwriting
import Cookbook.Proofs.Convert.Repeating
import Cookbook.Proofs.Convert.Skipping
import Cookbook.Proofs.Convert.Touching

/-!
Converting once more. After a conversion that has overwritten a folder, the same conversion goes through
again: the folder can be cleared again, and what was copied to it can be copied to it again.
-/

namespace Cookbook

open Action

namespace Disk

variable {d c c' d' made : Disk} {folder source target : Path} {place : Location}

/-! ## The way to a folder that is cleared -/

/-- That clearing a folder leaves the way to it as it is. -/
def SparesWay (d : Disk) (folder : Path) : Prop :=
  ∀ front, front <+: folder.parts →
    ¬ d.ShownIn folder (follow (if folder.isAbsolute then [] else d.here) front)

theorem not_shownIn_of_prefix (above : place <+: d.place folder) : ¬ d.ShownIn folder place := by
  rintro ⟨name, -, below⟩
  exact absurd (below.trans above).length_le (by simp)

theorem Becomes.shownIn {files : Location → Option FileData} (becomes : d.Becomes made files) :
    made.ShownIn folder place ↔ d.ShownIn folder place := by
  rw [ShownIn, ShownIn, becomes.place]

theorem Becomes.sparesWay {files : Location → Option FileData} (becomes : d.Becomes made files)
    (spares : d.SparesWay folder) : made.SparesWay folder := by
  intro front starts
  rw [becomes.shownIn, becomes.here]
  exact spares front starts

theorem Cleared.sparesWay (cleared : d.Cleared folder c) (sound : c.Sound)
    (replaceable : d.Replaceable folder)
    (created : c.createFolders (Copy.rootTarget folder) = (made, .ok ())) : d.SparesWay folder := by
  have passed {place : Location} (passes : d.Passes folder place) : ¬ d.ShownIn folder place := by
    obtain above | ⟨-, unshown⟩ := replaceable.passes place passes
    · exact not_shownIn_of_prefix above
    · exact unshown
  intro front starts
  by_cases moves : front = []
  · obtain empty | ⟨leads, -⟩ := createFolders_leads created
    · exact absurd empty (Copy.text_rootTarget_ne_empty replaceable.named)
    -- The way starts in a folder, which is made at most where the way passes.
    have started := walk_passes (Copy.leads_of_rootTarget leads).way
      (Copy.leads_of_rootTarget leads).folder (List.nil_prefix (l := folder.parts))
    have becomes := createFolders_becomes sound (Copy.rootTarget folder)
    rw [created] at becomes
    have here : made.here = d.here := becomes.here.trans cleared.becomes.here
    rw [apply_ite List.reverse, List.reverse_nil, List.reverse_reverse, here] at started
    rw [moves]
    obtain before | passes := (createFolders_adds sound created _).mp started
    · exact ((cleared.folders _).mp before).2
    · exact passed (cleared.becomes.passes.mp ((Copy.passes_rootTarget folder).mp passes))
  · exact passed ⟨front, moves, starts, rfl⟩

theorem Leads.cleared (leads : d.Leads folder) (cleared : d.Cleared folder c)
    (spares : d.SparesWay folder) : c.Leads folder :=
  leads.of_passed cleared.becomes.same fun front starts there =>
    (cleared.folders _).mpr ⟨there, spares front starts⟩

theorem Cleared.keeps (cleared : d.Cleared folder c) (cleared' : d'.Cleared folder c')
    (same : d'.place folder = d.place folder)
    (keeps : ∀ place, d.root.HasFolder place → ¬ d.ShownIn folder place → d'.root.HasFolder place) :
    c.KeepsFolders c' := by
  intro place there
  obtain ⟨before, unshown⟩ := (cleared.folders place).mp there
  refine (cleared'.folders place).mpr ⟨keeps place before unshown, ?_⟩
  rwa [ShownIn, same]

theorem Overlays.keeps {files : Location → Option FileData → Option FileData}
    {folders : Location → Prop} (overlays : d.Overlays made folder files folders)
    (there : d.root.HasFolder place) (unshown : ¬ d.ShownIn folder place) :
    made.root.HasFolder place := by
  by_cases below : d.place folder <+: place
  · obtain ⟨rest, rfl⟩ := below
    rw [shownIn_append, Bool.not_eq_false] at unshown
    exact (overlays.folders rest).mpr (.inl ⟨unshown, there⟩)
  · exact (overlays.otherFolders place below).mpr (.inl there)

theorem Lays.mono {keep : String → Bool} (lays : d.Lays made keep source target)
    (lays' : d'.Lays c keep source target) (same : d' = { d with root := d'.root })
    (keeps : d.KeepsFolders d') : made.KeepsFolders c := by
  have place (p : Path) : d'.place p = d.place p := by
    rw [same]
    rfl
  intro other there
  rw [lays', place, place]
  obtain before | passes | ⟨name, rest, below, kept, folder⟩ := (lays other).mp there
  · exact .inl (keeps other before)
  · refine .inr (.inl ?_)
    rw [same]
    exact passes
  · exact .inr (.inr ⟨name, rest, below, kept, keeps _ folder⟩)

end Disk

/-! ## Clearing -/

variable {session after : Session} {folder source destination : Path}

section Removing

variable {disk : Disk} {name : String} (sound : session.disk.Sound) (proper : ProperName name)
  (removed : session.disk.remove (folder.joinName name) = .ok disk)
include sound proper removed

theorem leads_of_remove (leads : session.disk.Leads folder) (spares : session.disk.SparesWay folder)
    (visible : isHidden name = false) : disk.Leads folder := by
  refine leads.of_passed (Disk.remove_becomes sound removed).same fun front starts folder => ?_
  refine (Disk.remove_hasFolder sound removed).mpr ⟨folder, fun below => ?_⟩
  rw [Disk.place_joinName _ _ proper] at below
  exact spares front starts ⟨name, visible, below⟩

theorem holds_of_remove {other : String} (different : other ≠ name)
    (there : session.disk.Holds (session.disk.place folder ++ [other])) :
    disk.Holds (disk.place folder ++ [other]) := by
  have becomes := Disk.remove_becomes sound removed
  have apart : ¬ session.disk.place (folder.joinName name) <+: session.disk.place folder ++ [other] := by
    rw [Disk.place_joinName _ _ proper, List.prefix_append_right_inj]
    intro same
    have equal : name = other := by simpa using same
    exact different equal.symm
  rw [becomes.place]
  obtain folder | file := there
  · exact .inl ((Disk.remove_hasFolder sound removed).mpr ⟨folder, apart⟩)
  · right
    rw [becomes.files]
    dsimp only
    rwa [if_neg apart]

end Removing

theorem clearEntries_ok {entries : List (String × Entry)} (sound : session.disk.Sound)
    (leads : session.disk.Leads folder) (spares : session.disk.SparesWay folder)
    (proper : ∀ entry ∈ entries, ProperName entry.1) (nodup : (entries.map (·.1)).Nodup)
    (there : ∀ entry ∈ entries, session.disk.Holds (session.disk.place folder ++ [entry.1]))
    (admits : ∀ entry ∈ entries, isHidden entry.1 = false → session.disk.Admits folder entry.1) :
    ∃ after, (entries.forM fun (name, _) => clearEntry folder name).run session = .ok () after := by
  induction entries generalizing session with
  | nil => exact ⟨session, forM_nil_eq_ok.mpr rfl⟩
  | cons entry entries ih =>
      simp only [List.forall_mem_cons] at proper there admits
      rw [List.map_cons, List.nodup_cons] at nodup
      cases visible : isHidden entry.1 with
      | true =>
          have skips : (clearEntry folder entry.1).run session = .ok () session :=
            clearEntry_eq_ok.mpr (by simp [visible])
          obtain ⟨after, rest⟩ := ih sound leads spares proper.2 nodup.2 there.2 admits.2
          exact ⟨after, forM_cons_eq_ok.mpr ⟨session, skips, rest⟩⟩
      | false =>
          obtain ⟨disk, removed⟩ := leads.remove_ok proper.1 (admits.1 visible) there.1
          have becomes := Disk.remove_becomes sound removed
          have removes : (clearEntry folder entry.1).run session = .ok () { session with disk } :=
            clearEntry_eq_ok.mpr (by simp [visible, removed])
          have later : ∀ other ∈ entries, disk.Holds (disk.place folder ++ [other.1]) :=
            fun other member => holds_of_remove sound proper.1 removed
              (fun same => nodup.1 (same ▸ List.mem_map_of_mem member)) (there.2 other member)
          obtain ⟨after, rest⟩ : ∃ after, (entries.forM fun (name, _) => clearEntry folder name).run
              { session with disk } = .ok () after :=
            ih (becomes.sound sound) (leads_of_remove sound proper.1 removed leads spares visible)
              (becomes.sparesWay spares) proper.2 nodup.2 later
              fun other member visible => becomes.admits.mpr (admits.2 other member visible)
          exact ⟨after, forM_cons_eq_ok.mpr ⟨_, removes, rest⟩⟩

theorem clearFolder_ok (sound : session.disk.Sound) (present : session.disk.isFolder folder = true)
    (spares : session.disk.SparesWay folder)
    (admits : ∀ name, ProperName name → isHidden name = false →
      session.disk.Holds (session.disk.place folder ++ [name]) → session.disk.Admits folder name) :
    ∃ after, (clearFolder folder).run session = .ok () after := by
  obtain ⟨tree, list⟩ := Disk.list_of_isFolder present
  have lists := Disk.lists_of_list sound list
  have there : ∀ entry ∈ tree.entries,
      session.disk.Holds (session.disk.place folder ++ [entry.1]) := by
    rintro ⟨name, entry⟩ member
    have found := Disk.finds_of_listed sound list member
    cases entry with
    | folder content => exact .inl found
    | file data => exact .inr found
  obtain ⟨after, run⟩ := clearEntries_ok sound (Disk.isFolder_iff.mp present).2 spares lists.proper
    lists.nodup there fun entry member visible =>
      admits entry.1 (lists.proper entry member) visible (there entry member)
  exact ⟨after, clearFolder_eq_ok.mpr ⟨tree, list, run⟩⟩

/-! ## Copying to a cleared folder again -/

variable {plan : Plan} {begun cleared copied cleared' : Session} {name : String}

namespace Overwrites

variable (overwrites : Overwrites plan source folder begun cleared copied)
include overwrites

theorem sparesWay : begun.disk.SparesWay folder := by
  obtain ⟨-, made, created⟩ := Copy.recipe_creates overwrites.copying
  exact overwrites.clear.sparesWay overwrites.clearSound overwrites.replaceable created

theorem leads : copied.disk.Leads folder :=
  (Copy.recipe_leads overwrites.clearSound overwrites.replaceable.named overwrites.copying).1

theorem accepted : begun.disk.refuse? (Copy.rootTarget folder) = none := by
  have metadata : cleared.disk.files (cleared.disk.place source ++ [Descriptor.fileName]) ≠ none := by
    rw [overwrites.clear.becomes.place, (overwrites.clear.still overwrites.apart _).1]
    exact overwrites.metadata
  rw [← overwrites.clear.becomes.refuse?]
  exact Copy.recipe_accepts_rootTarget overwrites.clearSound Descriptor.fileName_proper
    overwrites.replaceable.named (by decide) metadata overwrites.copying

theorem present {files : Location → Option FileData} (becomes : begun.disk.Becomes after.disk files)
    (leads : after.disk.Leads folder) :
    after.disk.isFolder folder = true ∧ after.disk.isFolder (Copy.rootTarget folder) = true := by
  have accepted := overwrites.accepted
  rw [← becomes.refuse?] at accepted
  obtain ⟨rest, longer⟩ := Copy.text_rootTarget folder
  refine ⟨Disk.isFolder_iff.mpr ⟨Disk.refuse?_front longer overwrites.replaceable.named accepted, leads⟩,
    Disk.isFolder_iff.mpr ⟨accepted, leads.congr ?_ ?_⟩⟩
  · exact Copy.isAbsolute_rootTarget folder
  · exact Copy.parts_rootTarget folder

end Overwrites

namespace Converter

variable {converter : Converter}

theorem imageFile_ne_none {d : Disk} {rest : Location} (taken : Copy.Routed rest)
    (there : d.files (d.place source ++ rest) ≠ none) (old : Option FileData) :
    converter.imageFile plan d source rest old ≠ none := by
  obtain ⟨data, found⟩ := Option.ne_none_iff_exists'.mp there
  have copied : plan.fate rest (some data) old ≠ none := by
    rw [Plan.fate]
    split
    · next skip => exact absurd skip taken
    · exact Option.some_ne_none _
    · exact Option.some_ne_none _
  rw [imageFile, found]
  split
  · exact fun absent => copied (Option.or_eq_none_iff.mp absent).2
  · exact copied

theorem imageFile_cases {d : Disk} {rest : Location}
    (there : converter.imageFile plan d source rest none ≠ none) :
    Copy.Routed rest ∧ d.files (d.place source ++ rest) ≠ none ∨
      (converter.withWrapper && !converter.mode.isSource) = true ∧
        d.files (d.place converter.context.config.gradleResourcesPath ++ rest) ≠ none := by
  have copied (there : plan.fate rest (d.files (d.place source ++ rest)) none ≠ none) :
      Copy.Routed rest ∧ d.files (d.place source ++ rest) ≠ none := by
    refine ⟨fun skip => there (Plan.fate_skip skip _ _), fun absent => there ?_⟩
    rw [absent]
    rfl
  rw [imageFile] at there
  split at there
  · next wrapped =>
      by_cases resource : d.files (d.place converter.context.config.gradleResourcesPath ++ rest) = none
      · rw [resource] at there
        exact .inl (copied there)
      · exact .inr ⟨wrapped, resource⟩
  · exact .inl (copied there)

namespace ConvertsOver

variable (converts : converter.ConvertsOver plan source folder begun cleared copied after)
include converts

theorem place (p : Path) : after.disk.place p = begun.disk.place p := converts.becomes.place p

theorem afterSound : after.disk.Sound := converts.becomes.sound converts.sound

theorem ends_leads : after.disk.Leads folder := by
  have changes := converts.wrapped converts.copiedSound
  exact converts.leads.mono changes.becomes.same changes.keepsFolders

theorem ends_replaceable : after.disk.Replaceable folder := by
  refine ⟨converts.replaceable.named, ?_⟩
  intro passed passes
  rw [converts.place, converts.becomes.shownIn]
  refine (converts.replaceable.passes passed (converts.becomes.passes.mp passes)).imp_right ?_
  rintro ⟨there, unshown⟩
  exact ⟨converts.overlays.keeps there unshown, unshown⟩

theorem clear_keeps (clear' : after.disk.Cleared folder cleared'.disk) :
    cleared.disk.KeepsFolders cleared'.disk :=
  converts.clear.keeps clear' (converts.place folder) fun _ => converts.overlays.keeps

/-- What was copied can be copied again, once the folder is cleared again. -/
theorem resumes (clear' : after.disk.Cleared folder cleared'.disk) :
    Resumes Copy.Routed Copy.keepsFolder source folder after.disk cleared cleared' := by
  have place := converts.clear.becomes.place
  have place' := converts.place
  have apart' : Apart (after.disk.place source) (after.disk.place folder) := by
    rw [place', place']
    exact converts.apart
  have still := converts.clear.still converts.apart
  have still' := clear'.still apart'
  rw [place'] at still'
  obtain ⟨sourceThere, -⟩ := Copy.recipe_creates converts.copying
  have same : cleared'.disk = { cleared.disk with root := cleared'.disk.root } := by
    rw [clear'.becomes.same, converts.becomes.same, converts.clear.becomes.same]
  refine ⟨same, converts.clearSound, clear'.becomes.root, converts.clearApart,
    converts.clear.avoids converts.replaceable converts.apart, ?_, ?_, ⟨?_, ?_⟩, ⟨?_, ?_⟩⟩
  · exact (Disk.isFolder_iff.mp sourceThere).2.mono same (converts.clear_keeps clear')
  · rw [place]
    exact still.symm.trans ((converts.overlays.still converts.apart).trans still')
  · intro rest taken there
    rw [place, (still rest).1] at there
    rw [place, converts.overlays.files]
    exact imageFile_ne_none taken there _
  · intro rest taken there
    rw [place, (still rest).2] at there
    rw [place]
    exact (converts.overlays.folders rest).mpr (.inr (.inl ⟨taken, there⟩))
  · exact fun other there => ((clear'.folders other).mp there).1
  · intro other there
    by_cases shown : after.disk.ShownIn folder other
    · exact absurd (clear'.gone other shown) there
    · rwa [clear'.files other shown] at there

theorem recipe_admits (proper : ProperName name)
    (taken : Copy.Routed [name] ∧ begun.disk.files (begun.disk.place source ++ [name]) ≠ none ∨
      Copy.keepsFolder name = true ∧ begun.disk.root.HasFolder (begun.disk.place source ++ [name])) :
    begun.disk.Admits folder name := by
  have still := converts.clear.still converts.apart [name]
  rw [Copy.Routed, Route.ofPlace_single, ← still.1, ← still.2, ← converts.clear.becomes.place] at taken
  exact converts.clear.becomes.admits.mp
    (Copy.recipe_admits converts.clearSound proper converts.replaceable.named taken converts.copying)

theorem wrapper_admits (wrapped : (converter.withWrapper && !converter.mode.isSource) = true)
    (proper : ProperName name)
    (taken : begun.disk.files (begun.disk.place converter.context.config.gradleResourcesPath ++ [name]) ≠
        none ∨
      begun.disk.root.HasFolder
        (begun.disk.place converter.context.config.gradleResourcesPath ++ [name])) :
    begun.disk.Admits folder name := by
  have wrapping := converts.wrapping
  rw [if_pos wrapped] at wrapping
  obtain ⟨_, -, copying, -⟩ := addWrapper_eq_ok wrapping
  have still := converts.copied_overlays.still converts.resourcesApart [name]
  rw [← still.1, ← still.2, ← converts.begun_copied.place] at taken
  exact converts.begun_copied.admits.mp
    (Copy.whole_admits converts.copiedSound proper converts.replaceable.named taken copying)

theorem admits (proper : ProperName name) (visible : isHidden name = false)
    (there : after.disk.Holds (begun.disk.place folder ++ [name])) : begun.disk.Admits folder name := by
  have shown : spares [name] = false := visible
  obtain there | there := there
  · obtain ⟨spared, -⟩ | ⟨kept, recipe⟩ | ⟨wrapped, resource⟩ :=
      (converts.overlays.folders [name]).mp there
    · rw [shown] at spared
      cases spared
    · exact converts.recipe_admits proper (.inr ⟨by simpa using kept, recipe⟩)
    · exact converts.wrapper_admits wrapped proper (.inr resource)
  · rw [converts.overlays.files, shown] at there
    obtain recipe | ⟨wrapped, resource⟩ := imageFile_cases there
    · exact converts.recipe_admits proper (.inl recipe)
    · exact converts.wrapper_admits wrapped proper (.inl resource)

theorem clear_again (overwrite : converter.overwrite = true) :
    ∃ cleared', (converter.clearDestination folder).run after = .ok () cleared' ∧
      after.disk.Cleared folder cleared'.disk := by
  obtain ⟨present, -⟩ := converts.present converts.becomes converts.ends_leads
  obtain ⟨cleared', clearing⟩ : ∃ cleared', (clearFolder folder).run after = .ok () cleared' := by
    refine clearFolder_ok converts.afterSound present (converts.becomes.sparesWay converts.sparesWay) ?_
    intro name proper visible there
    rw [converts.place] at there
    exact converts.becomes.admits.mpr (converts.admits proper visible there)
  have clearable : converter.Clearable folder after :=
    ⟨Disk.not_isFile_of_isFolder present, fun _ _ => .inr ⟨overwrite, cleared', clearing⟩⟩
  obtain ⟨ended, run⟩ := clearDestination_ok_iff.mpr clearable
  exact ⟨ended, run, clearDestination_cleared converts.afterSound (.inl present) run⟩

theorem copy_again (clear' : after.disk.Cleared folder cleared'.disk) :
    ∃ copied', Overwrites plan source folder after cleared' copied' ∧ copied'.disk.Fits after.disk := by
  have resumes := converts.resumes clear'
  have leads := converts.ends_leads.cleared clear' (converts.becomes.sparesWay converts.sparesWay)
  have present := (converts.present (converts.becomes.trans clear'.becomes) leads).2
  obtain ⟨copied', copying, fits⟩ := Copy.recipe_again resumes present converts.copying
  refine ⟨copied', ⟨converts.afterSound, converts.ends_replaceable, ?_, ?_, clear', copying⟩, fits⟩
  · rw [converts.place, converts.place]
    exact converts.apart
  · rw [converts.place, (converts.overlays.still converts.apart _).1]
    exact converts.metadata

end ConvertsOver

/-! ## The wrapper -/

theorem addWrapper_isFolder (run : (converter.addWrapper folder plan).run session = .ok () after) :
    session.disk.isFolder converter.context.config.gradleResourcesPath = true := by
  unfold addWrapper at run
  obtain ⟨between, isFolder, -⟩ := throwUnless_eq_ok.mp run
  exact (isFolder_eq_ok.mp isFolder).1

theorem addWrapper_ok {text : String}
    (resources : session.disk.isFolder converter.context.config.gradleResourcesPath = true)
    (copying : (Copy.whole converter.context.config.gradleResourcesPath folder).run session =
      .ok () copied)
    (file : copied.disk.isFile (folder.join wrapperProperties) = true)
    (read : copied.disk.readText (folder.join wrapperProperties) = .ok text) :
    ∃ ended, (converter.addWrapper folder plan).run session = .ok () ended := by
  obtain ⟨disk, written⟩ := Disk.writeFile_of_isFile file
    (Text.unlines (plan.apply .wrapper (Text.lines text))).toUTF8
  have filling : (Copy.fillFile plan .wrapper (folder.join wrapperProperties)
      (folder.join wrapperProperties)).run copied = .ok () { copied with disk } :=
    Copy.fillFile_eq_ok.mpr ⟨text, disk, read, written, rfl⟩
  suffices ∃ ended, (do
      if ← isFile (folder.join wrapperScript) then
        change (folder.join wrapperScript) (·.setExecutable (folder.join wrapperScript) true) :
      Action Unit).run { copied with disk } = .ok () ended by
    obtain ⟨ended, scripting⟩ := this
    refine ⟨ended, ?_⟩
    unfold addWrapper
    refine throwUnless_eq_ok.mpr ⟨session, isFolder_eq_ok.mpr ⟨resources, rfl⟩, ?_⟩
    rw [run_bind_of_ok copying]
    refine throwUnless_eq_ok.mpr ⟨copied, isFile_eq_ok.mpr ⟨file, rfl⟩, ?_⟩
    rw [run_bind_of_ok filling]
    exact scripting
  have asked : (isFile (folder.join wrapperScript)).run { copied with disk } =
      .ok (disk.isFile (folder.join wrapperScript)) { copied with disk } := rfl
  rw [run_bind_of_ok asked]
  split
  · next script =>
      obtain ⟨made, set_⟩ := Disk.setExecutable_of_isFile script true
      exact ⟨_, change_eq_ok.mpr ⟨made, set_, rfl⟩⟩
  · exact ⟨_, rfl⟩

namespace ConvertsOver

variable {cleared' copied' : Session}
  (converts : converter.ConvertsOver plan source folder begun cleared copied after)
  (again : Overwrites plan source folder after cleared' copied')
include converts again

theorem copied_same : copied'.disk = { copied.disk with root := copied'.disk.root } := by
  rw [again.begun_copied.same, converts.becomes.same, converts.begun_copied.same]

theorem copied_keeps : copied.disk.KeepsFolders copied'.disk := by
  refine converts.copied_lays.mono again.copied_lays ?_ (converts.clear_keeps again.clear)
  rw [again.clear.becomes.same, converts.becomes.same, converts.clear.becomes.same]

theorem copied_still (apart : Apart (begun.disk.place destination) (begun.disk.place folder)) :
    copied.disk.SameIn copied'.disk (begun.disk.place destination) := by
  have apart' : Apart (after.disk.place destination) (after.disk.place folder) := by
    rwa [converts.place, converts.place]
  have later := again.copied_overlays.still apart'
  rw [converts.place] at later
  have first := (converts.copied_overlays.still apart).symm
  exact first.trans ((converts.overlays.still apart).trans later)

theorem wrapper_resumes (wrapped : (converter.withWrapper && !converter.mode.isSource) = true)
    (fits : copied'.disk.Fits after.disk)
    (resources : copied.disk.isFolder converter.context.config.gradleResourcesPath = true) :
    Resumes (fun _ => True) (fun _ => true) converter.context.config.gradleResourcesPath folder
      after.disk copied copied' := by
  have place := converts.begun_copied.place
  have still := converts.copied_still again converts.resourcesApart
  have unchanged := converts.copied_overlays.still converts.resourcesApart
  have same := converts.copied_same again
  refine ⟨same, converts.copiedSound, again.begun_copied.root, ?_, fun passed passes _ =>
    converts.opens passed passes, ?_, ?_, ⟨?_, ?_⟩, fits⟩
  · rw [place, place]
    exact converts.resourcesApart
  · exact (Disk.isFolder_iff.mp resources).2.mono same (converts.copied_keeps again)
  · rwa [place]
  · intro rest _ there
    rw [place, (unchanged rest).1] at there
    rw [place, converts.overlays.files, imageFile, if_pos wrapped]
    intro absent
    exact there (Option.map_eq_none_iff.mp (Option.or_eq_none_iff.mp absent).1)
  · intro rest _ there
    rw [place, (unchanged rest).2] at there
    rw [place]
    exact (converts.overlays.folders rest).mpr (.inr (.inr ⟨wrapped, there⟩))

theorem properties_again {whole whole' filled : Session}
    (resumes : Resumes (fun _ => True) (fun _ => true) converter.context.config.gradleResourcesPath
      folder after.disk copied copied')
    (copying : (Copy.whole converter.context.config.gradleResourcesPath folder).run copied =
      .ok () whole)
    (copying' : (Copy.whole converter.context.config.gradleResourcesPath folder).run copied' =
      .ok () whole')
    (filling : (Copy.fillFile plan .wrapper (folder.join wrapperProperties)
      (folder.join wrapperProperties)).run whole = .ok () filled) :
    ∃ text, whole'.disk.isFile (folder.join wrapperProperties) = true ∧
      whole'.disk.readText (folder.join wrapperProperties) = .ok text := by
  have apart' : Apart (copied'.disk.place converter.context.config.gradleResourcesPath)
      (copied'.disk.place folder) := by
    rw [resumes.place, resumes.place]
    exact resumes.apart
  have becomes := Copy.whole_becomes converts.copiedSound resumes.apart copying
  have becomes' := Copy.whole_becomes again.copiedSound apart' copying'
  have keeps : whole.disk.KeepsFolders whole'.disk := by
    have lays := Copy.whole_lays converts.copiedSound resumes.apart resumes.avoids copying
    have lays' := Copy.whole_lays again.copiedSound apart' (fun passed passes _ =>
      again.opens passed passes) copying'
    exact lays.mono lays' resumes.same (converts.copied_keeps again)
  have noProperties : copied.disk.files
      (copied.disk.place folder ++ ["gradle", "wrapper", "gradle-wrapper.properties"]) = none := by
    rw [converts.begun_copied.place, converts.copied_overlays.files]
    exact Plan.fate_skip rfl _ _
  obtain ⟨data, found, -⟩ :=
    filledWrapper_files converts.copiedSound resumes.apart noProperties copying filling
  have properties : whole.disk.files (whole.disk.place (folder.join wrapperProperties)) = some data := by
    rw [becomes.place, place_wrapperProperties, becomes.files, transfer_below, found]
    rfl
  have properties' :
      whole'.disk.files (whole'.disk.place (folder.join wrapperProperties)) = some data := by
    rw [becomes'.place, place_wrapperProperties, becomes'.files, transfer_below, resumes.place,
      (resumes.still _).1, found]
    rfl
  obtain ⟨text, _, read, -⟩ := Copy.fillFile_eq_ok.mp filling
  have file : whole'.disk.isFile (folder.join wrapperProperties) = true := by
    refine Disk.isFile_mono ?_ keeps ?_ (Disk.isFile_of_readText read)
    · rw [becomes'.same, resumes.same, becomes.same]
    · rw [becomes.place, ← resumes.place, ← becomes'.place, properties']
      exact Option.some_ne_none data
  exact ⟨text, file, Disk.readText_of_same read file (properties'.trans properties.symm)⟩

theorem wrap_again (wrapped : (converter.withWrapper && !converter.mode.isSource) = true)
    (fits : copied'.disk.Fits after.disk) :
    ∃ ended, (converter.addWrapper folder plan).run copied' = .ok () ended := by
  have wrapping := converts.wrapping
  rw [if_pos wrapped] at wrapping
  have resources := addWrapper_isFolder wrapping
  obtain ⟨whole, filled, copying, filling, -⟩ := addWrapper_eq_ok wrapping
  have resumes := converts.wrapper_resumes again wrapped fits resources
  have present := (converts.present (converts.becomes.trans again.begun_copied) again.leads).2
  obtain ⟨whole', copying', -⟩ := Copy.whole_again resumes present copying
  obtain ⟨text, file, read⟩ := converts.properties_again again resumes copying copying' filling
  have resourcesAgain := Disk.isFolder_mono resumes.same (converts.copied_keeps again) resources
  exact addWrapper_ok resourcesAgain copying' file read

omit again in
/-- A conversion that has overwritten a folder can be carried out again right after. -/
theorem converts_again (overwrite : converter.overwrite = true) :
    ∃ cleared' copied' after', (converter.clearDestination folder).run after = .ok () cleared' ∧
      converter.ConvertsOver plan source folder after cleared' copied' after' := by
  obtain ⟨cleared', clearing, clear'⟩ := converts.clear_again overwrite
  obtain ⟨copied', again, fits⟩ := converts.copy_again clear'
  have resourcesApart : Apart (after.disk.place converter.context.config.gradleResourcesPath)
      (after.disk.place folder) := by
    rw [converts.place, converts.place]
    exact converts.resourcesApart
  by_cases wrapped : (converter.withWrapper && !converter.mode.isSource) = true
  · obtain ⟨after', wrapping⟩ := converts.wrap_again again wrapped fits
    exact ⟨cleared', copied', after', clearing, { again with
      resourcesApart, wrapping := by rwa [if_pos wrapped] }⟩
  · exact ⟨cleared', copied', copied', clearing, { again with
      resourcesApart, wrapping := by rw [if_neg wrapped] }⟩

omit again in
theorem keeps : cleared.disk.KeepsFolders after.disk := by
  intro place there
  have changes := converts.wrapped converts.copiedSound
  exact changes.keepsFolders place ((converts.copied_lays place).mpr (.inl there))

omit again in
theorem source_leads :
    after.disk.Leads source ∧ after.disk.isFolder source = true := by
  have same : after.disk = { cleared.disk with root := after.disk.root } := by
    rw [converts.becomes.same, converts.clear.becomes.same]
  obtain ⟨sourceThere, -⟩ := Copy.recipe_creates converts.copying
  exact ⟨(Disk.isFolder_iff.mp sourceThere).2.mono same converts.keeps,
    Disk.isFolder_mono same converts.keeps sourceThere⟩

omit again in
theorem load_again {descriptor : Descriptor}
    (load : (Descriptor.load source converter.context).run session = .ok descriptor begun)
    (published : after.published = begun.published) :
    (Descriptor.load source converter.context).run after = .ok descriptor after := by
  refine Descriptor.load_again load ?_ (remembers_of_published published)
  intro text read
  obtain ⟨data, found, decoded⟩ := Disk.readText_eq_ok read
  obtain ⟨accepted, -, -, -, usable⟩ := Disk.isFile_iff.mp (Disk.isFile_of_readText read)
  have proper := Descriptor.fileName_proper
  rw [Disk.place_joinName _ _ proper] at found usable
  refine converts.source_leads.1.readText_joinName proper ?_ (usable _ (by simp)) ?_ decoded
  · rw [converts.becomes.refuse?, accepted]
  · rw [converts.place, (converts.overlays.still converts.apart _).1, found]

end ConvertsOver

theorem carryOut_ok {descriptor : Descriptor} {cleared copied ended : Session}
    (clearing : (converter.clearDestination folder).run session = .ok () cleared)
    (accepted : converter.mode.accepts descriptor = true)
    (planned : converter.mode.plan descriptor converter.context = .ok plan)
    (copying : (Copy.recipe plan source folder).run cleared = .ok () copied)
    (wrapping : if converter.withWrapper && !converter.mode.isSource then
        (converter.addWrapper folder plan).run copied = .ok () ended
      else copied = ended) :
    (converter.carryOut source folder descriptor).run session =
      .ok ⟨descriptor, folder, .converted⟩ ended := by
  unfold carryOut
  rw [run_bind_of_ok clearing, accepted]
  simp only [Bool.not_true, Bool.false_eq_true, if_false]
  rw [run_bind_of_ok (ofExcept_eq_ok.mpr ⟨planned, rfl⟩), run_bind_of_ok copying]
  split at wrapping
  · next wrapped =>
      rw [if_pos wrapped, run_bind_of_ok wrapping]
      rfl
  · next unwrapped =>
      rw [if_neg unwrapped, wrapping]
      rfl

end Converter

end Cookbook
