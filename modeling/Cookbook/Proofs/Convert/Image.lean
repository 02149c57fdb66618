import Cookbook.Proofs.Convert.Layout
import Cookbook.Proofs.Convert.Preserving
import Cookbook.Proofs.Convert.RoundTrip

/-!
What a conversion writes, exactly. A new folder comes to hold the image of the recipe under the plan,
overlaid by the Gradle wrapper if one is added, and elsewhere only missing parents of it are made.
-/

namespace Cookbook

open Action

/-- What a file of the Gradle wrapper becomes when it is added to a recipe. -/
def Plan.wrapperFile (plan : Plan) (place : Location) (data : FileData) : FileData :=
  if place = ["gradle", "wrapper", "gradle-wrapper.properties"] then
    { data with bytes := plan.rewrite .wrapper data.bytes }
  else if place = ["gradlew"] then { data with executable := true }
  else data

theorem Plan.wrapperFile_other {plan : Plan} {place : Location}
    (notProperties : place ≠ ["gradle", "wrapper", "gradle-wrapper.properties"])
    (notScript : place ≠ ["gradlew"]) : plan.wrapperFile place = id := by
  funext data
  rw [wrapperFile, if_neg notProperties, if_neg notScript, id]

/-! ## New folders -/

namespace Disk

variable {d : Disk} {place : Location}

/-- That nothing is at a place, or an empty folder. -/
def Vacant (d : Disk) (place : Location) : Prop :=
  d.root.at? place = none ∨ d.root.at? place = some (.folder .empty)

theorem Vacant.files (vacant : d.Vacant place) (rest : Location) : d.files (place ++ rest) = none := by
  cases vacant with
  | inl absent => exact Tree.fileAt?_absent absent rest
  | inr empty =>
      rw [Disk.files, Tree.fileAt?_append empty]
      cases rest <;> rfl

theorem Vacant.folders (vacant : d.Vacant place) (name : String) (rest : Location) :
    ¬ d.root.HasFolder (place ++ name :: rest) := by
  intro there
  cases vacant with
  | inl absent =>
      obtain ⟨content, found⟩ := there.of_append
      rw [absent] at found
      cases found
  | inr empty =>
      rw [Tree.HasFolder, Tree.at?_append empty] at there
      obtain ⟨content, found⟩ := there
      cases found

/-- That a disk is another one with a folder put at a place, and the folders that lead there. -/
structure Grafts (d made : Disk) (target : Location) (files : Location → Option FileData)
    (folders : Location → Prop) : Prop where
  files : ∀ rest, made.files (target ++ rest) = files rest
  folders : ∀ rest, made.root.HasFolder (target ++ rest) ↔ folders rest
  otherFiles : ∀ place, ¬ target <+: place → made.files place = d.files place
  otherFolders : ∀ place, ¬ target <+: place →
    (made.root.HasFolder place ↔ d.root.HasFolder place ∨ place <+: target)

theorem Lays.grafts {made : Disk} {fate : Fate} {keep : String → Bool} {source target : Path}
    (lays : d.Lays made keep source target)
    (becomes : d.Becomes made (transfer fate (d.place source) (d.place target) d.files))
    (vacant : d.Vacant (d.place target)) (direct : d.Direct target)
    (sourceThere : d.root.HasFolder (d.place source))
    (there : made.root.HasFolder (d.place target)) :
    d.Grafts made (d.place target) (fun rest => fate rest (d.files (d.place source ++ rest)) none)
      fun rest => rest.all keep = true ∧ d.root.HasFolder (d.place source ++ rest) where
  files rest := by rw [becomes.files, transfer_below, vacant.files]
  folders rest := by
    cases rest with
    | nil => simp [there, sourceThere]
    | cons name rest =>
        rw [lays]
        constructor
        · rintro (before | passes | ⟨name', rest', same, kept, folder⟩)
          · exact absurd before (vacant.folders name rest)
          · obtain before | above := direct _ passes
            · exact absurd before (vacant.folders name rest)
            · exact absurd above.length_le (by simp)
          · rw [List.append_cancel_left same]
            exact ⟨kept, folder⟩
        · exact fun ⟨kept, folder⟩ => .inr (.inr ⟨name, rest, rfl, kept, folder⟩)
  otherFiles place outside := by rw [becomes.files, transfer_outside outside]
  otherFolders place outside := by
    constructor
    · intro now
      obtain before | passes | ⟨name, rest, rfl, -⟩ := (lays place).mp now
      · exact .inl before
      · exact direct place passes
      · exact absurd (List.prefix_append _ _) outside
    · rintro (before | ⟨rest, above⟩)
      · exact (lays place).mpr (.inl before)
      · rw [← above] at there
        exact there.of_append

end Disk

namespace Converter

variable {converter : Converter} {source destination : Path} {session after : Session}
  {conversion : Conversion} {plan : Plan}

theorem clearDestination_vacant (vacant : session.disk.Vacant (session.disk.place destination))
    (run : (converter.clearDestination destination).run session = .ok () after) : session = after := by
  obtain ⟨same, -⟩ | ⟨-, clear⟩ := clearDestination_eq_ok run
  · exact same
  · obtain ⟨tree, list, clear⟩ := clearFolder_eq_ok.mp clear
    have listed := Disk.list_eq_ok list
    cases vacant with
    | inl absent =>
        rw [absent] at listed
        cases listed
    | inr empty =>
        rw [empty] at listed
        cases listed
        exact forM_nil_eq_ok.mp clear

/-! ## The wrapper -/

theorem join_wrapperProperties (destination : Path) :
    destination.join wrapperProperties =
      ((destination.joinName "gradle").joinName "wrapper").joinName "gradle-wrapper.properties" := by
  have proper := proper_wrapperProperties
  simp only [List.forall_mem_cons] at proper
  obtain ⟨gradle, wrapper, last, -⟩ := proper
  show _ = ((destination.joinName "gradle").joinName "wrapper").join ⟨"gradle-wrapper.properties"⟩
  rw [Path.joinName_join wrapper (Path.isRelative_of_proper last), Path.joinName_join gradle rfl]
  rfl

theorem leads_of_wrapperProperties {d made : Disk} {bytes : ByteArray}
    (written : d.writeFile (destination.join wrapperProperties) bytes = .ok made) :
    d.Leads destination ∧ d.refuse? (destination.join wrapperScript) = none := by
  constructor
  · have proper := proper_wrapperProperties
    simp only [List.forall_mem_cons] at proper
    obtain ⟨gradle, wrapper, last, -⟩ := proper
    rw [join_wrapperProperties] at written
    exact ((Disk.Leads.of_writeFile last written).of_joinName wrapper.single).of_joinName gradle.single
  · exact Disk.refuse?_join isAbsolute_wrapperProperties isAbsolute_wrapperScript
      proper_wrapperScript.nonempty (by decide) (by decide) (Disk.writeFile_accepts written)

theorem addWrapper_lays (sound : session.disk.Sound)
    (apart : Apart (session.disk.place converter.context.config.gradleResourcesPath)
      (session.disk.place destination))
    (opens : session.disk.Opens destination)
    (run : (converter.addWrapper destination plan).run session = .ok () after) :
    session.disk.Adds after.disk fun place =>
      ∃ name rest, place = session.disk.place destination ++ name :: rest ∧
        session.disk.root.HasFolder
          (session.disk.place converter.context.config.gradleResourcesPath ++ name :: rest) := by
  obtain ⟨copied, filled, copying, filling, rest⟩ := addWrapper_eq_ok run
  have lays := Copy.whole_lays sound apart (fun place passes _ => opens place passes) copying
  have sameFilled := Copy.fillFile_sameFolders filling
  have same : copied.disk.SameFolders after.disk := by
    split at rest
    · obtain ⟨disk, changed, rfl⟩ := rest
      exact sameFilled.trans (Disk.setExecutable_sameFolders changed)
    · exact rest ▸ sameFilled
  intro place
  rw [same.iff, lays place]
  constructor
  · rintro (there | passes | ⟨name, rest, below, -, there⟩)
    · exact .inl there
    · exact .inl (opens place passes)
    · exact .inr ⟨name, rest, below, there⟩
  · rintro (there | ⟨name, rest, below, there⟩)
    · exact .inl there
    · exact .inr (.inr ⟨name, rest, below, by simp, there⟩)

theorem isFile_wrapperScript {filled : Session} {data : FileData} (sound : session.disk.Sound)
    (filling : (Copy.fillFile plan .wrapper (destination.join wrapperProperties)
      (destination.join wrapperProperties)).run session = .ok () filled)
    (script : filled.disk.files (filled.disk.place destination ++ ["gradlew"]) = some data) :
    filled.disk.isFile (destination.join wrapperScript) = true := by
  obtain ⟨_, -, becomes⟩ := Copy.fillFile_becomes sound filling
  have keeps := (Copy.fillFile_sameFolders filling).keeps
  obtain ⟨text, disk, -, written, rfl⟩ := Copy.fillFile_eq_ok.mp filling
  obtain ⟨leads, accepted⟩ := leads_of_wrapperProperties written
  exact Disk.isFile_joinName (leads.mono becomes.same keeps) proper_wrapperScript
    (by rwa [becomes.refuse?]) (by decide) script

theorem filledWrapper_files {copied filled : Session} (sound : session.disk.Sound)
    (apart : Apart (session.disk.place converter.context.config.gradleResourcesPath)
      (session.disk.place destination))
    (noProperties : session.disk.files (session.disk.place destination ++
      ["gradle", "wrapper", "gradle-wrapper.properties"]) = none)
    (copying : (Copy.whole converter.context.config.gradleResourcesPath destination).run session =
      .ok () copied)
    (filling : (Copy.fillFile plan .wrapper (destination.join wrapperProperties)
      (destination.join wrapperProperties)).run copied = .ok () filled) :
    ∃ data, session.disk.files (session.disk.place converter.context.config.gradleResourcesPath ++
        ["gradle", "wrapper", "gradle-wrapper.properties"]) = some data ∧
      ∀ rest, filled.disk.files (session.disk.place destination ++ rest) =
        if rest = ["gradle", "wrapper", "gradle-wrapper.properties"] then
          some (.rewritten (some data) (plan.rewrite .wrapper data.bytes))
        else (session.disk.files
          (session.disk.place converter.context.config.gradleResourcesPath ++ rest)).or
          (session.disk.files (session.disk.place destination ++ rest)) := by
  have copiedBecomes := Copy.whole_becomes sound apart copying
  obtain ⟨data, found, becomes⟩ := Copy.fillFile_becomes (copiedBecomes.sound sound) filling
  rw [place_wrapperProperties, copiedBecomes.place, copiedBecomes.files] at found becomes
  rw [found] at becomes
  rw [transfer_below, noProperties, Fate.copied, Option.or_none] at found
  refine ⟨data, found, fun rest => ?_⟩
  rw [becomes.files, Function.update_apply]
  simp only [List.append_cancel_left_eq, transfer_below, Fate.copied]

theorem addWrapper_files (sound : session.disk.Sound)
    (apart : Apart (session.disk.place converter.context.config.gradleResourcesPath)
      (session.disk.place destination))
    (noProperties : session.disk.files (session.disk.place destination ++
      ["gradle", "wrapper", "gradle-wrapper.properties"]) = none)
    (noScript : session.disk.files (session.disk.place destination ++ ["gradlew"]) = none)
    (run : (converter.addWrapper destination plan).run session = .ok () after) (rest : Location) :
    after.disk.files (session.disk.place destination ++ rest) =
      ((session.disk.files (session.disk.place converter.context.config.gradleResourcesPath ++ rest)).map
        (plan.wrapperFile rest)).or
        (session.disk.files (session.disk.place destination ++ rest)) := by
  obtain ⟨copied, filled, copying, filling, scripting⟩ := addWrapper_eq_ok run
  have copiedBecomes := Copy.whole_becomes sound apart copying
  have copiedSound := copiedBecomes.sound sound
  obtain ⟨_, -, filledBecomes⟩ := Copy.fillFile_becomes copiedSound filling
  have place : filled.disk.place destination = session.disk.place destination :=
    (filledBecomes.place destination).trans (copiedBecomes.place destination)
  obtain ⟨data, found, filledFile⟩ := filledWrapper_files sound apart noProperties copying filling
  have script := filledFile ["gradlew"]
  rw [if_neg (by decide), noScript, Option.or_none] at script
  -- The script is made executable last. Where there is none, the resources have none either.
  split at scripting
  · obtain ⟨disk, changed, rfl⟩ := scripting
    obtain ⟨scriptData, here, becomes⟩ := Disk.setExecutable_becomes (filledBecomes.sound copiedSound) changed
    rw [place_wrapperScript, place] at here becomes
    rw [script] at here
    rw [becomes.files, Function.update_apply]
    simp only [List.append_cancel_left_eq, filledFile]
    split_ifs with isScript isProperties
    · simp [isScript, here, Plan.wrapperFile]
    · simp [isProperties, found, Plan.wrapperFile, FileData.rewritten]
    · rw [Plan.wrapperFile_other isProperties isScript, Option.map_id, id]
  · next absent =>
      subst scripting
      have unscripted : session.disk.files (session.disk.place
          converter.context.config.gradleResourcesPath ++ ["gradlew"]) = none := by
        rw [Option.eq_none_iff_forall_ne_some]
        intro data there
        rw [there] at script
        exact absent (isFile_wrapperScript copiedSound filling (by rw [place, script]))
      rw [filledFile]
      split_ifs with isProperties
      · simp [isProperties, found, Plan.wrapperFile, FileData.rewritten]
      · by_cases isScript : rest = ["gradlew"]
        · simp [isScript, unscripted]
        · rw [Plan.wrapperFile_other isProperties isScript, Option.map_id, id]

/-- What adding the wrapper makes of a disk that is another one but for a folder. -/
theorem addWrapper_over {d : Disk} (place : ∀ p, session.disk.place p = d.place p)
    (otherFiles : ∀ place, ¬ d.place destination <+: place →
      session.disk.files place = d.files place)
    (otherFolders : ∀ place, ¬ d.place destination <+: place →
      (session.disk.root.HasFolder place ↔ d.root.HasFolder place ∨ place <+: d.place destination))
    (sound : session.disk.Sound)
    (apart : Apart (d.place converter.context.config.gradleResourcesPath) (d.place destination))
    (opens : session.disk.Opens destination)
    (there : session.disk.root.HasFolder (d.place destination))
    (bare : ∀ rest, rest = ["gradle", "wrapper", "gradle-wrapper.properties"] ∨ rest = ["gradlew"] →
      session.disk.files (d.place destination ++ rest) = none)
    (run : (converter.addWrapper destination plan).run session = .ok () after) :
    (∀ rest, after.disk.files (d.place destination ++ rest) =
      ((d.files (d.place converter.context.config.gradleResourcesPath ++ rest)).map
        (plan.wrapperFile rest)).or (session.disk.files (d.place destination ++ rest))) ∧
    (∀ rest, after.disk.root.HasFolder (d.place destination ++ rest) ↔
      session.disk.root.HasFolder (d.place destination ++ rest) ∨
        d.root.HasFolder (d.place converter.context.config.gradleResourcesPath ++ rest)) ∧
    (∀ place, ¬ d.place destination <+: place → after.disk.files place = d.files place) ∧
    ∀ place, ¬ d.place destination <+: place →
      (after.disk.root.HasFolder place ↔ d.root.HasFolder place ∨ place <+: d.place destination) := by
  have lays := addWrapper_lays sound (by rwa [place, place]) opens run
  have written := addWrapper_files sound (by rwa [place, place])
    (by rw [place, bare _ (.inl rfl)]) (by rw [place, bare _ (.inr rfl)]) run
  have confined : Confined destination false session after := (addWrapper_confined _).ok run
  have changes := confined sound
  rw [place] at changes
  simp only [place, otherFiles _ (apart.notBelow _)] at written
  -- The wrapper is still as it was before the recipe was copied.
  have sourceFolders (rest : Location) :
      session.disk.root.HasFolder (d.place converter.context.config.gradleResourcesPath ++ rest) ↔
        d.root.HasFolder (d.place converter.context.config.gradleResourcesPath ++ rest) := by
    rw [otherFolders _ (apart.notBelow rest)]
    exact or_iff_left fun above => apart.above ((List.prefix_append _ _).trans above)
  simp only [place, sourceFolders] at lays
  refine ⟨written, ?_, ?_, ?_⟩
  · intro rest
    rw [lays]
    cases rest with
    | nil => simp [there]
    | cons name rest =>
        refine or_congr_right ⟨?_, fun folder => ⟨name, rest, rfl, folder⟩⟩
        rintro ⟨name', rest', same, folder⟩
        rwa [List.append_cancel_left same]
  · intro place outside
    rw [changes.outside place outside, otherFiles place outside]
  · intro place outside
    rw [lays, ← otherFolders place outside]
    refine or_iff_left ?_
    rintro ⟨name, rest, rfl, -⟩
    exact outside (List.prefix_append _ _)

theorem addWrapper_grafts {d : Disk} {files : Location → Option FileData} {folders : Location → Prop}
    (grafts : d.Grafts session.disk (d.place destination) files folders)
    (place : ∀ p, session.disk.place p = d.place p) (sound : session.disk.Sound)
    (apart : Apart (d.place converter.context.config.gradleResourcesPath) (d.place destination))
    (opens : session.disk.Opens destination) (there : folders [])
    (bare : ∀ rest, Route.ofPlace rest = .skip → files rest = none)
    (run : (converter.addWrapper destination plan).run session = .ok () after) :
    d.Grafts after.disk (d.place destination)
      (fun rest => ((d.files (d.place converter.context.config.gradleResourcesPath ++ rest)).map
        (plan.wrapperFile rest)).or (files rest))
      fun rest => folders rest ∨
        d.root.HasFolder (d.place converter.context.config.gradleResourcesPath ++ rest) := by
  have begun : session.disk.root.HasFolder (d.place destination) := by
    simpa using (grafts.folders []).mpr there
  have empty : ∀ rest, rest = ["gradle", "wrapper", "gradle-wrapper.properties"] ∨ rest = ["gradlew"] →
      session.disk.files (d.place destination ++ rest) = none := by
    rintro rest (rfl | rfl)
    all_goals rw [grafts.files, bare _ rfl]
  obtain ⟨written, made, otherFiles, otherFolders⟩ := addWrapper_over place grafts.otherFiles
    grafts.otherFolders sound apart opens begun empty run
  simp only [grafts.files] at written
  simp only [grafts.folders] at made
  exact ⟨written, made, otherFiles, otherFolders⟩

/-! ## The image -/

/-- That a conversion leaves the image of a recipe in its folder: the files and folders of the recipe
that are not skipped, through the plan of the mode, and over them the wrapper unless it is left out. -/
def LeavesImage (converter : Converter) (source : Path) (conversion : Conversion)
    (session after : Session) : Prop :=
  ∃ plan, converter.mode.plan conversion.descriptor converter.context = .ok plan ∧
    let recipe := session.disk.place source
    let wrapper := session.disk.place converter.context.config.gradleResourcesPath
    if converter.withWrapper && !converter.mode.isSource then
      session.disk.Grafts after.disk (session.disk.place conversion.destination)
        (fun rest => ((session.disk.files (wrapper ++ rest)).map (plan.wrapperFile rest)).or
          (plan.fate rest (session.disk.files (recipe ++ rest)) none))
        fun rest => (rest.all Copy.keepsFolder = true ∧ session.disk.root.HasFolder (recipe ++ rest)) ∨
          session.disk.root.HasFolder (wrapper ++ rest)
    else
      session.disk.Grafts after.disk (session.disk.place conversion.destination)
        (fun rest => plan.fate rest (session.disk.files (recipe ++ rest)) none)
        fun rest => rest.all Copy.keepsFolder = true ∧ session.disk.root.HasFolder (recipe ++ rest)

/-- Where nothing is in the recipe's folder yet and the way there is direct, a conversion writes the
image of the recipe and nothing else. -/
theorem converted_image (sound : session.disk.Sound)
    (run : (converter.convert source destination).run session = .ok conversion after)
    (converted : conversion.outcome = .converted)
    (apart : Apart (session.disk.place source) (session.disk.place conversion.destination))
    (resourcesApart : Apart (session.disk.place converter.context.config.gradleResourcesPath)
      (session.disk.place conversion.destination))
    (vacant : session.disk.Vacant (session.disk.place conversion.destination))
    (direct : session.disk.Direct conversion.destination) :
    converter.LeavesImage source conversion session after := by
  obtain ⟨loaded, cleared, load, -, clearing, outcome⟩ := convert_eq_ok run
  have sameDisk : loaded.disk = session.disk := (Descriptor.load_sameDisk _ _).ok load
  have described := Descriptor.load_describes load
  simp only [converted] at outcome
  obtain ⟨-, plan, copied, planned, copying, wrapping⟩ := outcome
  unfold LeavesImage
  rw [← sameDisk] at sound apart resourcesApart vacant direct described ⊢
  obtain rfl := clearDestination_vacant vacant clearing
  have becomes := Copy.recipe_becomes sound apart copying
  have lays := Copy.recipe_lays sound apart (direct.avoids apart) copying
  obtain ⟨data, -, -, metadata, -⟩ := described
  -- That the recipe is in a folder is known from its metadata, and of the target from their copy.
  have sourceThere : loaded.disk.root.HasFolder (loaded.disk.place source) :=
    Tree.hasFolder_of_file (metadata.trans_ne (Option.some_ne_none data))
  have there : copied.disk.root.HasFolder (loaded.disk.place conversion.destination) := by
    have copiedMetadata : copied.disk.files
        (loaded.disk.place conversion.destination ++ [Descriptor.fileName]) = some data := by
      rw [becomes.files, transfer_below, metadata, vacant.files]
      rfl
    exact Tree.hasFolder_of_file (copiedMetadata.trans_ne (Option.some_ne_none data))
  have grafts := lays.grafts becomes vacant direct sourceThere there
  refine ⟨plan, planned, ?_⟩
  dsimp only
  split at wrapping
  · next wrapped =>
      rw [if_pos wrapped]
      refine addWrapper_grafts grafts becomes.place (becomes.sound sound) resourcesApart ?_
        (by simp [sourceThere]) (fun rest skip => Plan.fate_skip skip _ _) wrapping
      exact fun place passes => (lays place).mpr (.inr (.inl (becomes.passes.mp passes)))
  · next unwrapped =>
      rw [if_neg unwrapped]
      exact wrapping ▸ grafts

theorem converted_image_wrappedRecipe :
    ∃ conversion after,
      (toWorkingCopy.convert ⟨"recipe"⟩ ⟨"copy"⟩).run wrappedRecipe = .ok conversion after ∧
      toWorkingCopy.LeavesImage ⟨"recipe"⟩ conversion wrappedRecipe after := by
  have run := run_eq_ok wrappedRecipe_given
  simp only [bind_eq_ok, pure_eq_ok, Prod.mk.injEq] at run
  obtain ⟨copied, between, copying, restored, after, -, ⟨rfl, -⟩, -⟩ := run
  refine ⟨workingCopied, between, copying, ?_⟩
  exact converted_image wrappedRecipe_ready.sound copying rfl (by decide +kernel) (by decide +kernel)
    (.inl (by decide +kernel)) (Disk.direct_of_noStepUp (by decide +kernel))

def detoured : Conversion where
  descriptor := ⟨"recipe", "recipe", "recipe", ⟨8, 1, 0, .final, 0⟩, none, [], none, []⟩
  destination := ⟨"new/recipe/extra/../../recipe"⟩
  outcome := .converted

theorem converted_image_fails :
    ¬ ∀ (converter : Converter) (source destination : Path) (session after : Session)
      (conversion : Conversion), session.disk.Sound →
      (converter.convert source destination).run session = .ok conversion after →
      conversion.outcome = .converted →
      Apart (session.disk.place source) (session.disk.place conversion.destination) →
      Apart (session.disk.place converter.context.config.gradleResourcesPath)
        (session.disk.place conversion.destination) →
      Apart (session.disk.place source)
        (session.disk.place converter.context.config.gradleResourcesPath) →
      session.disk.Vacant (session.disk.place conversion.destination) →
      converter.LeavesImage source conversion session after := by
  intro image
  -- The path of the destination goes through a folder inside of the recipe's own.
  have given : (sparing.convert ⟨"recipes/recipe"⟩ ⟨"new/recipe/extra/../.."⟩).value? changedNotes =
      some detoured := by decide +kernel
  obtain ⟨plan, -, grafts⟩ := image _ _ _ _ _ _ changedNotes_sound (run_eq_ok given) rfl
    (by decide +kernel) (by decide +kernel) (by decide +kernel) (.inl (by decide +kernel))
  have place : changedNotes.disk.place detoured.destination = ["new", "recipe"] := by decide +kernel
  rw [if_neg (by decide), place] at grafts
  have extra : (((sparing.convert ⟨"recipes/recipe"⟩ ⟨"new/recipe/extra/../.."⟩).left
      changedNotes).disk.root.at? ["new", "recipe", "extra"]) = some (.folder .empty) := by
    decide +kernel
  obtain ⟨-, content, found⟩ := (grafts.folders ["extra"]).mp ⟨_, extra⟩
  have absent : changedNotes.disk.root.at? (changedNotes.disk.place ⟨"recipes/recipe"⟩ ++ ["extra"]) =
      none := by decide +kernel
  rw [absent] at found
  cases found

end Converter

end Cookbook
