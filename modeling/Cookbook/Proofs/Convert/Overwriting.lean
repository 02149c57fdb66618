import Cookbook.Proofs.Convert.Accepting
import Cookbook.Proofs.Convert.Image

/-!
What a conversion leaves of a folder that it overwrites: the image of the recipe over what is in the
folder's hidden entries. Nothing else that the folder held comes into it.
-/

namespace Cookbook

open Action

/-- Whether clearing a folder spares what is at a place below it: what is in hidden entries. -/
def spares : Location → Bool
  | [] => true
  | name :: _ => isHidden name

namespace Disk

variable {d c made : Disk} {folder source : Path} {place : Location}

theorem shownIn_append (rest : Location) :
    d.ShownIn folder (d.place folder ++ rest) ↔ spares rest = false := by
  simp only [ShownIn, List.prefix_append_right_inj]
  cases rest with
  | nil => simp [spares]
  | cons name rest =>
      constructor
      · rintro ⟨other, visible, starts⟩
        rwa [(List.cons_prefix_cons.mp starts).1] at visible
      · exact fun visible => ⟨name, visible, by simp⟩

theorem ShownIn.below (shown : d.ShownIn folder place) : d.place folder <+: place := by
  obtain ⟨name, -, below⟩ := shown
  exact (List.prefix_append _ _).trans below

theorem not_shownIn_of_apart (apart : Apart (d.place source) (d.place folder)) (rest : Location) :
    ¬ d.ShownIn folder (d.place source ++ rest) :=
  fun shown => apart.notBelow rest shown.below

theorem Cleared.still (cleared : d.Cleared folder c) (apart : Apart (d.place source) (d.place folder)) :
    d.SameIn c (d.place source) := by
  intro rest
  have unshown := not_shownIn_of_apart apart rest
  exact ⟨cleared.files _ unshown, (cleared.folders _).trans (and_iff_left unshown)⟩

theorem Cleared.files_append (cleared : d.Cleared folder c) (rest : Location) :
    c.files (d.place folder ++ rest) =
      if spares rest then d.files (d.place folder ++ rest) else none := by
  have shown : d.ShownIn folder (d.place folder ++ rest) ↔ spares rest = false := shownIn_append rest
  cases spared : spares rest with
  | false => exact cleared.gone _ (shown.mpr spared)
  | true =>
      refine cleared.files _ fun inside => ?_
      rw [shown.mp inside] at spared
      cases spared

theorem Cleared.folders_append (cleared : d.Cleared folder c) (rest : Location) :
    c.root.HasFolder (d.place folder ++ rest) ↔
      spares rest = true ∧ d.root.HasFolder (d.place folder ++ rest) := by
  rw [cleared.folders, shownIn_append, Bool.not_eq_false, and_comm]

/-- That what is in a folder can be replaced: the folder's path is not empty, and it passes only places
above the folder, and folders that clearing it leaves alone. -/
structure Replaceable (d : Disk) (folder : Path) : Prop where
  named : folder.text ≠ ""
  passes : ∀ place, d.Passes folder place →
    place <+: d.place folder ∨ d.root.HasFolder place ∧ ¬ d.ShownIn folder place

theorem replaceable_of_noStepUp (named : folder.text ≠ "") (noStepUp : ".." ∉ folder.parts) :
    d.Replaceable folder :=
  ⟨named, fun _ ⟨_, _, starts, same⟩ => .inl (same ▸ follow_front noStepUp starts _)⟩

theorem Replaceable.leads (replaceable : d.Replaceable folder) (sound : d.Sound)
    (created : d.createFolders (Copy.rootTarget folder) = (made, .ok ()))
    (there : d.root.at? (d.place folder) ≠ none) : d.Leads folder := by
  have becomes : d.Becomes made d.files := by
    simpa only [created] using createFolders_becomes sound (Copy.rootTarget folder)
  have adds := createFolders_adds sound created
  have leads : made.Leads folder := by
    obtain empty | ⟨leads, -⟩ := createFolders_leads created
    · exact absurd empty (Copy.text_rootTarget_ne_empty replaceable.named)
    · exact Copy.leads_of_rootTarget leads
  have present : d.root.HasFolder (d.place folder) := by
    have folder_ := leads.folder
    rw [becomes.place] at folder_
    have noFile := files_of_hasFolder folder_
    rw [becomes.files] at noFile
    obtain ⟨entry, found⟩ := Option.ne_none_iff_exists'.mp there
    cases entry with
    | folder content => exact ⟨content, found⟩
    | file data =>
        rw [files, Tree.fileAt?_eq_some.mpr found] at noFile
        cases noFile
  refine leads.of_passed (by rw [becomes.same]) fun front starts passed => ?_
  obtain before | passes := (adds _).mp passed
  · exact before
  · obtain above | ⟨before, -⟩ := replaceable.passes _ ((Copy.passes_rootTarget folder).mp passes)
    · obtain ⟨rest, same⟩ := above
      rw [← same] at present
      exact present.of_append
    · exact before

theorem Cleared.passes (cleared : d.Cleared folder c) (replaceable : d.Replaceable folder)
    (passes : c.Passes folder place) : place <+: d.place folder ∨ c.root.HasFolder place := by
  rw [cleared.folders]
  exact replaceable.passes place (cleared.becomes.passes.mp passes)

theorem Cleared.avoids (cleared : d.Cleared folder c) (replaceable : d.Replaceable folder)
    (apart : Apart (d.place source) (d.place folder)) : c.Avoids source folder := by
  intro place passes below
  rw [cleared.becomes.place] at below
  exact (cleared.passes replaceable passes).resolve_left fun above => apart.above (below.trans above)

/-- That a disk is another one in which a folder came to hold files and folders over what clearing it
spares. The files are told from those that are spared. -/
structure Overlays (d made : Disk) (folder : Path)
    (files : Location → Option FileData → Option FileData) (folders : Location → Prop) : Prop where
  files : ∀ rest, made.files (d.place folder ++ rest) =
    files rest (if spares rest then d.files (d.place folder ++ rest) else none)
  folders : ∀ rest, made.root.HasFolder (d.place folder ++ rest) ↔
    spares rest = true ∧ d.root.HasFolder (d.place folder ++ rest) ∨ folders rest
  otherFiles : ∀ place, ¬ d.place folder <+: place → made.files place = d.files place
  otherFolders : ∀ place, ¬ d.place folder <+: place →
    (made.root.HasFolder place ↔ d.root.HasFolder place ∨ place <+: d.place folder)

theorem Overlays.still {files : Location → Option FileData → Option FileData} {folders : Location → Prop}
    (overlays : d.Overlays made folder files folders) (apart : Apart (d.place source) (d.place folder)) :
    d.SameIn made (d.place source) := by
  intro rest
  have outside := apart.notBelow rest
  refine ⟨overlays.otherFiles _ outside, (overlays.otherFolders _ outside).trans ?_⟩
  exact or_iff_left fun above => apart.above ((List.prefix_append _ _).trans above)

section Laying

variable {keep : String → Bool} (lays : c.Lays made keep source folder)
  (cleared : d.Cleared folder c) (replaceable : d.Replaceable folder)
include lays cleared replaceable

theorem Lays.below_cleared (apart : Apart (d.place source) (d.place folder)) (name : String)
    (rest : Location) :
    made.root.HasFolder (d.place folder ++ name :: rest) ↔
      spares (name :: rest) = true ∧ d.root.HasFolder (d.place folder ++ name :: rest) ∨
        (name :: rest).all keep = true ∧ d.root.HasFolder (d.place source ++ name :: rest) := by
  have sourceFolders (rest : Location) := (cleared.still apart rest).2
  unfold Lays Adds at lays
  simp only [cleared.becomes.place, sourceFolders] at lays
  rw [lays, cleared.folders_append]
  constructor
  · rintro (before | passes | ⟨name', rest', same, kept, folder⟩)
    · exact .inl before
    · obtain above | before := cleared.passes replaceable passes
      · exact absurd above.length_le (by simp)
      · exact .inl ((cleared.folders_append _).mp before)
    · rw [List.append_cancel_left same]
      exact .inr ⟨kept, folder⟩
  · rintro (before | ⟨kept, folder⟩)
    · exact .inl before
    · exact .inr (.inr ⟨name, rest, rfl, kept, folder⟩)

theorem Lays.outside_cleared (there : made.root.HasFolder (d.place folder)) {place : Location}
    (outside : ¬ d.place folder <+: place) :
    made.root.HasFolder place ↔ d.root.HasFolder place ∨ place <+: d.place folder := by
  have before : c.root.HasFolder place ↔ d.root.HasFolder place :=
    (cleared.folders place).trans (and_iff_left fun shown => outside shown.below)
  unfold Lays Adds at lays
  simp only [cleared.becomes.place] at lays
  rw [lays, before]
  constructor
  · rintro (earlier | passes | ⟨name, rest, rfl, -⟩)
    · exact .inl earlier
    · exact (cleared.passes replaceable passes).symm.imp_left before.mp
    · exact absurd (List.prefix_append _ _) outside
  · rintro (earlier | above)
    · exact .inl earlier
    · obtain ⟨rest, same⟩ := above
      rw [← same] at there
      exact (lays place).mp there.of_append |>.imp_left before.mp

theorem Lays.overlays {fate : Fate} (apart : Apart (d.place source) (d.place folder))
    (becomes : c.Becomes made (transfer fate (c.place source) (c.place folder) c.files))
    (sourceThere : d.root.HasFolder (d.place source))
    (there : made.root.HasFolder (d.place folder)) :
    d.Overlays made folder (fun rest old => fate rest (d.files (d.place source ++ rest)) old)
      fun rest => rest.all keep = true ∧ d.root.HasFolder (d.place source ++ rest) := by
  simp only [cleared.becomes.place] at becomes
  refine ⟨?_, ?_, ?_, fun place => lays.outside_cleared cleared replaceable there⟩
  · intro rest
    rw [becomes.files, transfer_below, (cleared.still apart rest).1, cleared.files_append]
  · intro rest
    cases rest with
    | nil => simp [there, sourceThere]
    | cons name rest => exact lays.below_cleared cleared replaceable apart name rest
  · intro place outside
    rw [becomes.files, transfer_outside outside]
    exact cleared.files place fun shown => outside shown.below

end Laying

end Disk

variable {source folder : Path} {plan : Plan} {begun cleared copied : Session}

/-! ## Recipes over folders -/

/-- That a folder is overwritten with a recipe: it is cleared, and the recipe is copied to it. -/
structure Overwrites (plan : Plan) (source folder : Path) (begun cleared copied : Session) : Prop where
  sound : begun.disk.Sound
  replaceable : begun.disk.Replaceable folder
  apart : Apart (begun.disk.place source) (begun.disk.place folder)
  metadata : begun.disk.files (begun.disk.place source ++ [Descriptor.fileName]) ≠ none
  clear : begun.disk.Cleared folder cleared.disk
  copying : (Copy.recipe plan source folder).run cleared = .ok () copied

namespace Overwrites

variable (overwrites : Overwrites plan source folder begun cleared copied)
include overwrites

theorem clearSound : cleared.disk.Sound := overwrites.clear.becomes.sound overwrites.sound

theorem sourceThere : begun.disk.root.HasFolder (begun.disk.place source) :=
  Tree.hasFolder_of_file overwrites.metadata

theorem clearApart : Apart (cleared.disk.place source) (cleared.disk.place folder) := by
  rw [overwrites.clear.becomes.place, overwrites.clear.becomes.place]
  exact overwrites.apart

theorem copied_becomes : cleared.disk.Becomes copied.disk
    (transfer plan.fate (cleared.disk.place source) (cleared.disk.place folder) cleared.disk.files) :=
  Copy.recipe_becomes overwrites.clearSound overwrites.clearApart overwrites.copying

theorem copied_lays : cleared.disk.Lays copied.disk Copy.keepsFolder source folder :=
  Copy.recipe_lays overwrites.clearSound overwrites.clearApart
    (overwrites.clear.avoids overwrites.replaceable overwrites.apart) overwrites.copying

theorem begun_copied : begun.disk.Becomes copied.disk copied.disk.files :=
  overwrites.clear.becomes.trans overwrites.copied_becomes.own

theorem copiedSound : copied.disk.Sound := overwrites.begun_copied.sound overwrites.sound

theorem there : copied.disk.root.HasFolder (begun.disk.place folder) := by
  have place := overwrites.clear.becomes.place
  obtain ⟨data, metadata⟩ := Option.ne_none_iff_exists'.mp overwrites.metadata
  have copiedMetadata :
      copied.disk.files (begun.disk.place folder ++ [Descriptor.fileName]) = some data := by
    rw [overwrites.copied_becomes.files, place, place, transfer_below,
      (overwrites.clear.still overwrites.apart _).1, metadata]
    rfl
  exact Tree.hasFolder_of_file (copiedMetadata.trans_ne (Option.some_ne_none data))

theorem opens : copied.disk.Opens folder := by
  intro passed passes
  obtain ⟨rest, same⟩ | before := overwrites.clear.passes overwrites.replaceable
    (overwrites.copied_becomes.passes.mp passes)
  · have there := overwrites.there
    rw [← same] at there
    exact there.of_append
  · exact (overwrites.copied_lays passed).mpr (.inl before)

theorem copied_overlays : begun.disk.Overlays copied.disk folder
    (fun rest old => plan.fate rest (begun.disk.files (begun.disk.place source ++ rest)) old)
    fun rest => rest.all Copy.keepsFolder = true ∧
      begun.disk.root.HasFolder (begun.disk.place source ++ rest) :=
  overwrites.copied_lays.overlays overwrites.clear overwrites.replaceable overwrites.apart
    overwrites.copied_becomes overwrites.sourceThere overwrites.there

end Overwrites

namespace Converter

variable {converter : Converter} {destination : Path} {session after : Session}
  {conversion : Conversion} {d : Disk}

theorem addWrapper_overlays {files : Location → Option FileData → Option FileData}
    {folders : Location → Prop} (overlays : d.Overlays session.disk folder files folders)
    (becomes : d.Becomes session.disk session.disk.files) (sound : session.disk.Sound)
    (apart : Apart (d.place converter.context.config.gradleResourcesPath) (d.place folder))
    (opens : session.disk.Opens folder) (there : folders [])
    (bare : ∀ rest, Route.ofPlace rest = .skip → files rest none = none)
    (run : (converter.addWrapper folder plan).run session = .ok () after) :
    d.Overlays after.disk folder
      (fun rest old => ((d.files (d.place converter.context.config.gradleResourcesPath ++ rest)).map
        (plan.wrapperFile rest)).or (files rest old))
      fun rest => folders rest ∨
        d.root.HasFolder (d.place converter.context.config.gradleResourcesPath ++ rest) := by
  have place := becomes.place
  have begun : session.disk.root.HasFolder (d.place folder) := by
    simpa using (overlays.folders []).mpr (.inr there)
  have empty : ∀ rest, rest = ["gradle", "wrapper", "gradle-wrapper.properties"] ∨ rest = ["gradlew"] →
      session.disk.files (d.place folder ++ rest) = none := by
    rintro rest (rfl | rfl)
    all_goals
      rw [overlays.files, if_neg (by decide)]
      exact bare _ rfl
  obtain ⟨written, made, otherFiles, otherFolders⟩ := addWrapper_over place overlays.otherFiles
    overlays.otherFolders sound apart opens begun empty run
  simp only [overlays.files] at written
  simp only [overlays.folders, or_assoc] at made
  exact ⟨written, made, otherFiles, otherFolders⟩

/-! ## Conversions -/

/-- The file that a conversion leaves at a place in the recipe's folder, where clearing has left an old
one or none. -/
def imageFile (converter : Converter) (plan : Plan) (d : Disk) (source : Path) (rest : Location)
    (old : Option FileData) : Option FileData :=
  let copied := plan.fate rest (d.files (d.place source ++ rest)) old
  if converter.withWrapper && !converter.mode.isSource then
    ((d.files (d.place converter.context.config.gradleResourcesPath ++ rest)).map
      (plan.wrapperFile rest)).or copied
  else copied

/-- That a conversion makes a folder at a place in the recipe's folder. -/
def imageFolder (converter : Converter) (d : Disk) (source : Path) (rest : Location) : Prop :=
  rest.all Copy.keepsFolder = true ∧ d.root.HasFolder (d.place source ++ rest) ∨
    (converter.withWrapper && !converter.mode.isSource) = true ∧
      d.root.HasFolder (d.place converter.context.config.gradleResourcesPath ++ rest)

/-- The course of a conversion that overwrites a folder, from where the recipe is loaded: the folder is
overwritten with the recipe, and the wrapper is added or not. -/
structure ConvertsOver (converter : Converter) (plan : Plan) (source folder : Path)
    (begun cleared copied after : Session) : Prop
    extends Overwrites plan source folder begun cleared copied where
  resourcesApart : Apart (begun.disk.place converter.context.config.gradleResourcesPath)
    (begun.disk.place folder)
  wrapping : if converter.withWrapper && !converter.mode.isSource then
      (converter.addWrapper folder plan).run copied = .ok () after
    else copied = after

theorem ready_of_copying (sound : session.disk.Sound) (replaceable : session.disk.Replaceable folder)
    (metadata : session.disk.files (session.disk.place source ++ [Descriptor.fileName]) ≠ none)
    (clearing : (converter.clearDestination folder).run session = .ok () cleared)
    (copying : (Copy.recipe plan source folder).run cleared = .ok () copied) :
    session.disk.isFolder folder = true ∨ session.disk.root.at? (session.disk.place folder) = none := by
  obtain ⟨rfl, -⟩ | ⟨-, clear⟩ := clearDestination_eq_ok clearing
  · refine or_iff_not_imp_right.mpr fun there => ?_
    obtain ⟨-, made, created⟩ := Copy.recipe_creates copying
    have accepted := Copy.recipe_accepts_rootTarget sound Descriptor.fileName_proper replaceable.named
      (by decide) metadata copying
    obtain ⟨rest, longer⟩ := Copy.text_rootTarget folder
    exact Disk.isFolder_iff.mpr ⟨Disk.refuse?_front longer replaceable.named accepted,
      replaceable.leads sound created there⟩
  · obtain ⟨tree, list, -⟩ := clearFolder_eq_ok.mp clear
    exact .inl (Disk.isFolder_of_list list)

/-- That a run converts a recipe to a folder, whatever is there. The recipe and the wrapper are apart
from the folder. -/
structure RunsOver (converter : Converter) (source destination : Path) (session : Session)
    (conversion : Conversion) (after : Session) : Prop where
  overwrite : converter.overwrite = true
  sound : session.disk.Sound
  run : (converter.convert source destination).run session = .ok conversion after
  converted : conversion.outcome = .converted
  apart : Apart (session.disk.place source) (session.disk.place conversion.destination)
  resourcesApart : Apart (session.disk.place converter.context.config.gradleResourcesPath)
    (session.disk.place conversion.destination)

theorem RunsOver.convertsOver (runs : converter.RunsOver source destination session conversion after)
    (replaceable : session.disk.Replaceable conversion.destination) :
    ∃ loaded plan cleared copied,
      (Descriptor.load source converter.context).run session = .ok conversion.descriptor loaded ∧
      loaded.disk = session.disk ∧
      conversion.destination =
        destination.joinName (converter.mode.destinationName conversion.descriptor) ∧
      converter.mode.accepts conversion.descriptor = true ∧
      converter.mode.plan conversion.descriptor converter.context = .ok plan ∧
      converter.ConvertsOver plan source conversion.destination loaded cleared copied after := by
  obtain ⟨-, sound, run, converted, apart, resourcesApart⟩ := runs
  obtain ⟨loaded, cleared, load, named, clearing, outcome⟩ := convert_eq_ok run
  have sameDisk : loaded.disk = session.disk := (Descriptor.load_sameDisk _ _).ok load
  obtain ⟨data, -, -, metadata, -⟩ := Descriptor.load_describes load
  simp only [converted] at outcome
  obtain ⟨accepted, plan, copied, planned, copying, wrapping⟩ := outcome
  refine ⟨loaded, plan, cleared, copied, load, sameDisk, named, accepted, planned, ?_⟩
  rw [← sameDisk] at sound apart resourcesApart replaceable metadata
  replace metadata := metadata.trans_ne (Option.some_ne_none data)
  have ready := ready_of_copying sound replaceable metadata clearing copying
  exact {
    sound, replaceable, metadata, apart, resourcesApart, copying, wrapping
    clear := clearDestination_cleared sound ready clearing }

namespace ConvertsOver

variable (converts : converter.ConvertsOver plan source folder begun cleared copied after)
include converts

theorem wrapped : Confined folder false copied after := by
  have wrapping := converts.wrapping
  split at wrapping
  · exact (addWrapper_confined _).ok wrapping
  · exact wrapping ▸ refl_of (Confined folder false) copied

theorem becomes : begun.disk.Becomes after.disk after.disk.files :=
  converts.begun_copied.trans (converts.wrapped converts.copiedSound).becomes

/-- The folder comes to hold the image of the recipe over what clearing has spared, and nothing else of
what was in it. -/
theorem overlays : begun.disk.Overlays after.disk folder
    (converter.imageFile plan begun.disk source) (converter.imageFolder begun.disk source) := by
  have wrapping := converts.wrapping
  unfold imageFile imageFolder
  split at wrapping
  · next wrapped =>
      simp only [wrapped, if_true, true_and]
      exact addWrapper_overlays converts.copied_overlays converts.begun_copied
        converts.copiedSound converts.resourcesApart converts.opens
        (by simp [converts.sourceThere]) (fun rest skip => Plan.fate_skip skip _ _) wrapping
  · next unwrapped =>
      subst wrapping
      simpa only [unwrapped, if_false, Bool.false_eq_true, false_and, or_false] using
        converts.copied_overlays

end ConvertsOver

end Converter
end Cookbook
