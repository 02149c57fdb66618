import Cookbook.Proofs.Convert.Depth
import Cookbook.Proofs.Convert.Image
import Cookbook.Proofs.Convert.Meeting

/-!
Conversions into folders that may be inside of the recipe's own. As long as a conversion keeps out of the
folders that the recipe holds, it goes no deeper than the recipe and the wrapper are high before
(`convertWithin_reach`), and leaves what can be told from the disk before (`converted_fills`). Within a
folder of the recipe it reads what it has written itself (`converted_meets`).
-/

namespace Cookbook

open Action

/-! ## What is left -/

/-- That a disk is another one with the folders that a path passes, and with files and folders put where
it leads. -/
structure Disk.Fills (d made : Disk) (target : Path) (files : Location → Option FileData)
    (folders : Location → Prop) : Prop where
  files : ∀ rest, made.files (d.place target ++ rest) = files rest
  otherFiles : ∀ place, ¬ d.place target <+: place → made.files place = d.files place
  folders : d.Adds made fun place =>
    d.Passes target place ∨ ∃ rest, place = d.place target ++ rest ∧ folders rest

namespace Converter

variable {converter : Converter} {source destination target : Path} {session copied after : Session}
  {conversion : Conversion} {plan : Plan} {d : Disk}

def wraps (converter : Converter) : Bool := converter.withWrapper && !converter.mode.isSource

abbrev resources (converter : Converter) : Path := converter.context.config.gradleResourcesPath

/-- A recipe's files with those of the wrapper over them if it is added. -/
def overlaid (converter : Converter) (plan : Plan) (d : Disk) (recipe : Location → Option FileData)
    (rest : Location) : Option FileData :=
  if converter.wraps then
    ((d.files (d.place converter.resources ++ rest)).map (plan.wrapperFile rest)).or (recipe rest)
  else recipe rest

def imageFiles (converter : Converter) (plan : Plan) (source : Path) (d : Disk) :
    Location → Option FileData :=
  converter.overlaid plan d fun rest => plan.fate rest (d.files (d.place source ++ rest)) none

def ImageFolders (converter : Converter) (source : Path) (d : Disk) (rest : Location) : Prop :=
  (rest.all Copy.keepsFolder = true ∧ d.root.HasFolder (d.place source ++ rest)) ∨
    converter.wraps = true ∧ d.root.HasFolder (d.place converter.resources ++ rest)

theorem notAbove_of_load {loaded : Session} {descriptor : Descriptor} {context : Context}
    (load : (Descriptor.load source context).run session = .ok descriptor loaded)
    (vacant : session.disk.Vacant (session.disk.place target)) :
    ¬ session.disk.place target <+: session.disk.place source := by
  obtain ⟨data, -, -, metadata, -⟩ := Descriptor.load_describes load
  rintro ⟨rest, same⟩
  rw [← same, List.append_assoc, vacant.files] at metadata
  cases metadata

theorem recipe_fills (stands : session.disk.root.HasFolder session.disk.here)
    (sound : session.disk.Sound) (evades : session.disk.Evades source target)
    (vacant : session.disk.Vacant (session.disk.place target))
    {data : FileData} (metadata : session.disk.files
      (session.disk.place source ++ [Descriptor.fileName]) = some data)
    (copying : (Copy.recipe plan source target).run session = .ok () copied) :
    session.disk.Fills copied.disk target
      (fun rest => plan.fate rest (session.disk.files (session.disk.place source ++ rest)) none)
      fun rest => rest.all Copy.keepsFolder = true ∧
        session.disk.root.HasFolder (session.disk.place source ++ rest) := by
  obtain ⟨becomes, lays⟩ := Copy.recipe_evading stands sound evades copying
  have there : copied.disk.root.HasFolder (session.disk.place target) := by
    have copiedMetadata : copied.disk.files
        (session.disk.place target ++ [Descriptor.fileName]) = some data := by
      rw [becomes.files, transfer_below, metadata, vacant.files]
      rfl
    exact Tree.hasFolder_of_file (copiedMetadata.trans_ne (Option.some_ne_none data))
  refine ⟨?_, ?_, ?_⟩
  · intro rest
    rw [becomes.files, transfer_below, vacant.files]
  · intro place outside
    rw [becomes.files, transfer_outside outside]
  · intro place
    rw [lays place]
    refine ⟨?_, ?_⟩
    · rintro (before | passes | ⟨name, rest, rfl, kept, folder⟩)
      · exact .inl before
      · exact .inr (.inl passes)
      · exact .inr (.inr ⟨_, rfl, kept, folder⟩)
    · rintro (before | passes | ⟨rest, rfl, kept, folder⟩)
      · exact .inl before
      · exact .inr (.inl passes)
      · cases rest with
        | nil =>
            rw [List.append_nil]
            exact (lays _).mp there
        | cons name rest => exact .inr (.inr ⟨name, rest, rfl, kept, folder⟩)

theorem wrapper_fills {files : Location → Option FileData} {folders : Location → Prop}
    (fills : session.disk.Fills copied.disk target files folders)
    (becomes : session.disk.Becomes copied.disk copied.disk.files) (sound : session.disk.Sound)
    (apart : Apart (session.disk.place converter.resources) (session.disk.place target))
    (avoids : session.disk.Avoids converter.resources target)
    (root : folders []) (bare : ∀ rest, Route.ofPlace rest = .skip → files rest = none)
    (wrapping : (converter.addWrapper target plan).run copied = .ok () after) :
    session.disk.Fills after.disk target
      (fun rest => ((session.disk.files (session.disk.place converter.resources ++ rest)).map
        (plan.wrapperFile rest)).or (files rest))
      fun rest => folders rest ∨
        session.disk.root.HasFolder (session.disk.place converter.resources ++ rest) := by
  have place := becomes.place
  have copiedSound := becomes.sound sound
  have copiedApart : Apart (copied.disk.place converter.resources) (copied.disk.place target) := by
    rwa [place, place]
  have opens : copied.disk.Opens target := fun passed passes =>
    (fills.folders passed).mpr (.inr (.inl (becomes.passes.mp passes)))
  have lays := addWrapper_lays copiedSound copiedApart opens wrapping
  have written := addWrapper_files copiedSound copiedApart (by rw [place, fills.files, bare _ rfl])
    (by rw [place, fills.files, bare _ rfl]) wrapping
  have confined : Confined target false copied after := (addWrapper_confined _).ok wrapping
  have changes := confined copiedSound
  -- The copy makes no folder of the wrapper: those on the way to the target were there, and none is in
  -- the target.
  have resourceFolders (rest : Location) :
      copied.disk.root.HasFolder (session.disk.place converter.resources ++ rest) ↔
        session.disk.root.HasFolder (session.disk.place converter.resources ++ rest) := by
    rw [fills.folders]
    refine or_iff_left_of_imp ?_
    rintro (passes | ⟨below, same, -⟩)
    · exact avoids _ passes (List.prefix_append _ _)
    · exact absurd same (apart.append rest below).ne
  simp only [place] at lays written
  refine ⟨?_, ?_, ?_⟩
  · intro rest
    rw [written, fills.otherFiles _ (apart.notBelow rest), fills.files]
  · intro other outside
    rw [changes.outside other (by rwa [place]), fills.otherFiles other outside]
  · intro other
    rw [lays, fills.folders other, or_assoc, or_assoc]
    refine or_congr_right (or_congr_right ⟨?_, ?_⟩)
    · rintro (⟨rest, rfl, there⟩ | ⟨name, rest, rfl, there⟩)
      · exact ⟨rest, rfl, .inl there⟩
      · exact ⟨name :: rest, rfl, .inr ((resourceFolders _).mp there)⟩
    · rintro ⟨rest, rfl, there | there⟩
      · exact .inl ⟨rest, rfl, there⟩
      · cases rest with
        | nil => exact .inl ⟨[], rfl, root⟩
        | cons name rest => exact .inr ⟨name, rest, rfl, (resourceFolders _).mpr there⟩

/-! ## Bounded walks -/

def addWrapperBy (converter : Converter) (copy : Action Unit) (destination : Path) (plan : Plan) :
    Action Unit := do
  if !(← isFolder converter.resources) then throw (.missingFile converter.resources)
  copy
  let properties := destination.join wrapperProperties
  if !(← isFile properties) then throw (.missingFile (converter.resources.join wrapperProperties))
  Copy.fillFile plan .wrapper properties properties
  let script := destination.join wrapperScript
  if ← isFile script then change script (·.setExecutable script true)

/-- Converting with a way to copy the recipe and one to add the wrapper. -/
def convertBy (converter : Converter) (copy wrap : Path → Plan → Action Unit)
    (source destination : Path) : Action Conversion := do
  if !(← isFolder source) then throw (.notAFolder source)
  let descriptor ← Descriptor.load source converter.context
  let target := destination.joinName (converter.mode.destinationName descriptor)
  converter.clearDestination target
  if !converter.mode.accepts descriptor then
    return { descriptor, destination := target, outcome := .nonCompliant }
  let plan ← Action.ofExcept (converter.mode.plan descriptor converter.context)
  copy target plan
  if converter.wraps then wrap target plan
  return { descriptor, destination := target, outcome := .converted }

/-- The conversion that goes down the recipe and the wrapper to a given depth, whatever the limit on the
length of paths is. -/
def convertWithin (converter : Converter) (depth : Nat) (source destination : Path) :
    Action Conversion :=
  converter.convertBy
    (fun target plan => Copy.recipeFolder plan depth source (Copy.rootTarget target))
    (fun target plan => converter.addWrapperBy
      (Copy.wholeFolder depth converter.resources (Copy.rootTarget target)) target plan)
    source destination

theorem addWrapper_by (converter : Converter) (destination : Path) (plan : Plan) :
    converter.addWrapper destination plan =
      converter.addWrapperBy (Copy.whole converter.resources destination) destination plan :=
  rfl

theorem convert_by (converter : Converter) (source destination : Path) :
    converter.convert source destination =
      converter.convertBy (fun target plan => Copy.recipe plan source target)
        (fun target plan => converter.addWrapper target plan) source destination :=
  rfl

theorem addWrapperBy_congr {copy copy' : Action Unit} (same : copy.run session = copy'.run session)
    (destination : Path) (plan : Plan) :
    (converter.addWrapperBy copy destination plan).run session =
      (converter.addWrapperBy copy' destination plan).run session := by
  unfold addWrapperBy
  refine run_bind_congr rfl ?_
  intro there between run
  obtain ⟨-, rfl⟩ := isFolder_eq_ok.mp run
  cases there with
  | false => rfl
  | true => exact run_bind_congr same fun _ _ _ => rfl

theorem convertBy_congr {copy copy' wrap wrap' : Path → Plan → Action Unit}
    (same : ∀ descriptor loaded cleared plan,
      (Descriptor.load source converter.context).run session = .ok descriptor loaded →
      let target := destination.joinName (converter.mode.destinationName descriptor)
      (converter.clearDestination target).run loaded = .ok () cleared →
      (copy target plan).run cleared = (copy' target plan).run cleared ∧
        ∀ copied, (copy target plan).run cleared = .ok () copied → converter.wraps = true →
          (wrap target plan).run copied = (wrap' target plan).run copied) :
    (converter.convertBy copy wrap source destination).run session =
      (converter.convertBy copy' wrap' source destination).run session := by
  unfold convertBy
  refine run_bind_congr rfl ?_
  intro there between looking
  obtain ⟨-, rfl⟩ := isFolder_eq_ok.mp looking
  cases there with
  | false => rfl
  | true =>
      refine run_bind_congr rfl ?_
      intro descriptor loaded load
      refine run_bind_congr rfl ?_
      intro _ cleared clearing
      cases converter.mode.accepts descriptor with
      | false => rfl
      | true =>
          refine run_bind_congr rfl ?_
          intro plan between planning
          obtain ⟨-, rfl⟩ := ofExcept_eq_ok.mp planning
          obtain ⟨copies, wraps⟩ := same descriptor loaded _ plan load clearing
          refine run_bind_congr copies ?_
          intro _ copied copying
          cases wrapped : converter.wraps with
          | false => rfl
          | true => exact run_bind_congr (wraps copied copying wrapped) fun _ _ _ => rfl

theorem convert_within (sound : session.disk.Sound) (source destination : Path) :
    (converter.convert source destination).run session =
      (converter.convertWithin session.disk.pathLimit source destination).run session := by
  rw [convert_by, convertWithin]
  refine convertBy_congr ?_
  intro descriptor loaded cleared plan load target clearing
  have sameDisk : loaded.disk = session.disk := (Descriptor.load_sameDisk _ _).ok load
  rw [← sameDisk] at sound ⊢
  have confined : Confined target converter.overwrite loaded cleared :=
    (clearDestination_confined target).ok clearing
  have clearedBecomes := (confined sound).becomes
  have limit : cleared.disk.pathLimit = loaded.disk.pathLimit := by rw [clearedBecomes.same]
  refine ⟨?_, ?_⟩
  · rw [← limit]
    rfl
  · intro copied copying _
    have filled : Confined target false cleared copied := (Copy.recipe_confined source target).ok copying
    have copiedBecomes := (filled (clearedBecomes.sound sound)).becomes
    have same : copied.disk.pathLimit = loaded.disk.pathLimit := by
      rw [copiedBecomes.same, ← limit]
    rw [addWrapper_by, ← same]
    have whole : (Copy.whole converter.resources target).run copied = (Copy.wholeFolder
        copied.disk.pathLimit converter.resources (Copy.rootTarget target)).run copied := rfl
    exact addWrapperBy_congr whole target plan

/-! ## Conversions that end -/

/-- That a conversion makes nothing in front of itself: what it writes to is absent or empty, neither
that nor a folder made on the way lies in a folder of the recipe, and the wrapper is taken from elsewhere.
What it writes to may well be inside of the recipe's own folder. -/
structure KeepsOut (converter : Converter) (source target : Path) (d : Disk) : Prop where
  vacant : d.Vacant (d.place target)
  outside : ∀ name, d.root.HasFolder (d.place source ++ [name]) →
    ¬ d.place source ++ [name] <+: d.place target
  avoids : ∀ name, d.root.HasFolder (d.place source ++ [name]) → ∀ place, d.Passes target place →
    d.place source ++ [name] <+: place → d.root.HasFolder place
  resources : converter.wraps = true →
    Apart (d.place converter.resources) (d.place target) ∧ d.Avoids converter.resources target

/-- How deep a conversion can go: the height of the recipe, or of the wrapper if that is higher. -/
def reach (converter : Converter) (source : Path) (d : Disk) : Nat :=
  max (d.height (d.place source)) (d.height (d.place converter.resources))

theorem KeepsOut.evades (keepsOut : converter.KeepsOut source target session.disk)
    {loaded : Session} {descriptor : Descriptor} {context : Context}
    (load : (Descriptor.load source context).run session = .ok descriptor loaded) :
    session.disk.Evades source target :=
  ⟨notAbove_of_load load keepsOut.vacant, keepsOut.outside, keepsOut.avoids⟩

theorem convertWithin_reach {depth : Nat} (sound : session.disk.Sound)
    (keepsOut : ∀ target, converter.target? source destination session = some target →
      converter.KeepsOut source target session.disk)
    (enough : converter.reach source session.disk ≤ depth) :
    (converter.convertWithin depth source destination).run session =
      (converter.convertWithin (converter.reach source session.disk) source destination).run
        session := by
  refine convertBy_congr ?_
  intro descriptor loaded cleared plan load target clearing
  have ready := keepsOut target (target?_of_load load)
  have evades := ready.evades load
  have sameDisk : loaded.disk = session.disk := (Descriptor.load_sameDisk _ _).ok load
  rw [← sameDisk] at sound ready evades enough ⊢
  obtain rfl := clearDestination_vacant ready.vacant clearing
  -- The heights are those from before the walk, which writes to neither of what it goes through.
  have high := loaded.disk.within_height
  have recipeHigh : loaded.disk.height (loaded.disk.place source) ≤ converter.reach source loaded.disk :=
    Nat.le_max_left _ _
  have wrapperHigh : loaded.disk.height (loaded.disk.place converter.resources) ≤
      converter.reach source loaded.disk := Nat.le_max_right _ _
  refine ⟨?_, ?_⟩
  · exact recipeFolder_depth sound (Copy.evades_rootTarget evades) (high _) (loaded.disk.height_pos _)
      (Nat.le_trans recipeHigh enough) recipeHigh
  · intro copied copying wrapped
    obtain ⟨apart, avoids⟩ := ready.resources wrapped
    have permits := inward_permits target
    have inward : Inward target loaded copied :=
      (permits.recipeFolder (permits.rootTarget (.refl target)) depth).ok copying
    have changes := inward.1 sound
    have becomes := changes.becomes
    have kept := inward.keepsSource sound apart avoids
    refine addWrapperBy_congr ?_ target plan
    refine wholeFolder_depth (becomes.sound sound) ?_ ?_ ?_ (loaded.disk.height_pos _)
      (Nat.le_trans wrapperHigh enough) wrapperHigh
    · rwa [Copy.place_rootTarget, becomes.place, becomes.place]
    · rw [Copy.avoids_rootTarget]
      intro place passes below
      rw [becomes.place] at below
      exact changes.keepsFolders _ (avoids place (becomes.passes.mp passes) below)
    · rw [becomes.place]
      exact (high _).of_same kept

theorem converted_fills (stands : session.disk.root.HasFolder session.disk.here)
    (sound : session.disk.Sound)
    (keepsOut : ∀ target, converter.target? source destination session = some target →
      converter.KeepsOut source target session.disk)
    (run : (converter.convert source destination).run session = .ok conversion after)
    (converted : conversion.outcome = .converted) :
    ∃ plan, converter.mode.plan conversion.descriptor converter.context = .ok plan ∧
      session.disk.Fills after.disk conversion.destination
        (converter.imageFiles plan source session.disk)
        (converter.ImageFolders source session.disk) := by
  obtain ⟨loaded, cleared, load, named, clearing, outcome⟩ := convert_eq_ok run
  simp only [converted] at outcome
  obtain ⟨-, plan, copied, planned, copying, wrapping⟩ := outcome
  have ready := keepsOut _ (target?_of_load load)
  have evades := ready.evades load
  obtain ⟨data, -, -, metadata, -⟩ := Descriptor.load_describes load
  have sameDisk : loaded.disk = session.disk := (Descriptor.load_sameDisk _ _).ok load
  rw [← named] at ready evades
  rw [← sameDisk] at stands sound ready evades metadata ⊢
  obtain rfl := clearDestination_vacant ready.vacant clearing
  have fills := recipe_fills stands sound evades ready.vacant metadata copying
  have sourceThere : loaded.disk.root.HasFolder (loaded.disk.place source) :=
    Tree.hasFolder_of_file (metadata.trans_ne (Option.some_ne_none data))
  refine ⟨plan, planned, ?_⟩
  split at wrapping
  · next wrapped =>
      obtain ⟨apart, avoids⟩ := ready.resources wrapped
      have becomes := (Copy.recipe_evading stands sound evades copying).1.own
      have wrapper := wrapper_fills fills becomes sound apart avoids (by simp [sourceThere])
        (fun rest skip => Plan.fate_skip skip _ _) wrapping
      have on : converter.wraps = true := wrapped
      unfold imageFiles overlaid ImageFolders
      simpa [on] using wrapper
  · next unwrapped =>
      have off : converter.wraps = false := Bool.eq_false_iff.mpr unwrapped
      subst wrapping
      unfold imageFiles overlaid ImageFolders
      simpa [off] using fills

/-! ## Conversions that meet themselves -/

theorem met_overlaid {name : String} {files : Location → Option FileData}
    (sound : session.disk.Sound)
    (apart : converter.wraps = true → Apart (session.disk.place converter.resources)
      (session.disk.place target))
    (copying : (Copy.recipe plan source target).run session = .ok () copied)
    (met : ∀ below, copied.disk.files (session.disk.place target ++ below) = plan.metFiles name files below)
    (wrapping : if converter.wraps then (converter.addWrapper target plan).run copied = .ok () after
      else copied = after) (below : Location) :
    after.disk.files (session.disk.place target ++ below) =
      converter.overlaid plan session.disk (plan.metFiles name files) below := by
  unfold overlaid
  split at wrapping
  · next on =>
      have confined : Confined target false session copied := (Copy.recipe_confined source _).ok copying
      have changes := confined sound
      have place := changes.becomes.place
      have copiedApart : Apart (copied.disk.place converter.resources) (copied.disk.place target) := by
        rw [place, place]
        exact apart on
      -- The walk leaves out both files of a wrapper that adding one looks at.
      have written := addWrapper_files (changes.becomes.sound sound) copiedApart
        (by rw [place, met, plan.metFiles_bare name _ (.inl rfl)])
        (by rw [place, met, plan.metFiles_bare name _ (.inr rfl)]) wrapping below
      rw [if_pos on, ← met below, ← changes.outside _ ((apart on).notBelow below)]
      rwa [place, place] at written
  · next off =>
      subst wrapping
      rw [if_neg off, met]

/-- A conversion into a folder that the recipe holds comes to its end only if the folder is its own, right
in the recipe. What had been copied when the walk came to that folder is copied once more then. -/
theorem converted_meets {name : String} {rest : Location}
    (stands : session.disk.root.HasFolder session.disk.here) (sound : session.disk.Sound)
    (run : (converter.convert source destination).run session = .ok conversion after)
    (converted : conversion.outcome = .converted)
    (vacant : session.disk.Vacant (session.disk.place conversion.destination))
    (inside : session.disk.place conversion.destination = session.disk.place source ++ name :: rest)
    (kept : (name :: rest).all Copy.keepsFolder = true)
    (folder : session.disk.root.HasFolder (session.disk.place source ++ [name])) :
    rest = [] ∧
      (session.disk.Opens conversion.destination →
        (converter.wraps = true → Apart (session.disk.place converter.resources)
          (session.disk.place conversion.destination)) →
        ∃ plan, converter.mode.plan conversion.descriptor converter.context = .ok plan ∧
          ∀ below, after.disk.files (session.disk.place conversion.destination ++ below) =
            converter.overlaid plan session.disk
              (plan.metFiles name fun rest => session.disk.files (session.disk.place source ++ rest))
              below) := by
  obtain ⟨loaded, cleared, load, named, clearing, outcome⟩ := convert_eq_ok run
  simp only [converted] at outcome
  obtain ⟨-, plan, copied, planned, copying, wrapping⟩ := outcome
  have sameDisk : loaded.disk = session.disk := (Descriptor.load_sameDisk _ _).ok load
  rw [← sameDisk] at stands sound vacant inside folder ⊢
  obtain rfl := clearDestination_vacant vacant clearing
  -- Clearing changes nothing, so the walk begins in the session in which the descriptor was loaded.
  have walk := copying
  rw [Copy.recipe_run] at walk
  have rootInside := inside
  rw [← Copy.place_rootTarget] at rootInside
  cases rest with
  | cons next rest => exact absurd walk (recipeFolder_endless stands sound rootInside kept folder)
  | nil =>
      refine ⟨rfl, fun opens apart => ⟨plan, planned, fun below => ?_⟩⟩
      -- The folder in the recipe is the one to convert to, and so it holds nothing yet.
      have empty : loaded.disk.root.at? (loaded.disk.place (Copy.rootTarget conversion.destination)) =
          some (.folder .empty) := by
        obtain ⟨content, found⟩ := folder
        rw [Copy.place_rootTarget]
        exact vacant.resolve_left (by simp [inside, found])
      have met := Copy.recipeFolder_meets sound rootInside
        (fun place passes => opens place ((Copy.passes_rootTarget _).mp passes)) empty
        (by simpa using kept) walk
      rw [Copy.place_rootTarget] at met
      exact met_overlaid sound apart copying met wrapping below

/-- How conversions walk, wherever the destination is. The limit on the length of paths bounds the depth
of the walk. If the conversion keeps out of the folders of the recipe, the walk ends by itself at the
height that the recipe and the wrapper have when it begins, and what it writes is made of what they hold
by then. In a folder of the recipe the conversion comes to its end only if that is its own and right in
the recipe, and then it takes up what it wrote before. -/
theorem convert_walks (converter : Converter) (source destination : Path)
    (stands : session.disk.root.HasFolder session.disk.here) (sound : session.disk.Sound) :
    (converter.convert source destination).run session =
        (converter.convertWithin session.disk.pathLimit source destination).run session ∧
      ((∀ target, converter.target? source destination session = some target →
          converter.KeepsOut source target session.disk) →
        (∀ depth, converter.reach source session.disk ≤ depth →
          (converter.convertWithin depth source destination).run session =
            (converter.convertWithin (converter.reach source session.disk) source destination).run
              session) ∧
        ∀ conversion after,
          (converter.convert source destination).run session = .ok conversion after →
          conversion.outcome = .converted →
          ∃ plan, converter.mode.plan conversion.descriptor converter.context = .ok plan ∧
            session.disk.Fills after.disk conversion.destination
              (converter.imageFiles plan source session.disk)
              (converter.ImageFolders source session.disk)) ∧
      ∀ conversion after name rest,
        (converter.convert source destination).run session = .ok conversion after →
        conversion.outcome = .converted →
        session.disk.Vacant (session.disk.place conversion.destination) →
        session.disk.place conversion.destination = session.disk.place source ++ name :: rest →
        (name :: rest).all Copy.keepsFolder = true →
        session.disk.root.HasFolder (session.disk.place source ++ [name]) →
        rest = [] ∧
          (session.disk.Opens conversion.destination →
            (converter.wraps = true → Apart (session.disk.place converter.resources)
              (session.disk.place conversion.destination)) →
            ∃ plan, converter.mode.plan conversion.descriptor converter.context = .ok plan ∧
              ∀ below, after.disk.files (session.disk.place conversion.destination ++ below) =
                converter.overlaid plan session.disk
                  (plan.metFiles name fun rest =>
                    session.disk.files (session.disk.place source ++ rest)) below) :=
  ⟨convert_within sound source destination,
    fun keepsOut => ⟨fun _ => convertWithin_reach sound keepsOut,
      fun _ _ => converted_fills stands sound keepsOut⟩,
    fun _ _ _ _ => converted_meets stands sound⟩

theorem KeepsOut.of_direct (vacant : d.Vacant (d.place target)) (direct : d.Direct target)
    (outside : ∀ name, d.root.HasFolder (d.place source ++ [name]) →
      ¬ d.place source ++ [name] <+: d.place target)
    (resources : converter.wraps = true → Apart (d.place converter.resources) (d.place target)) :
    converter.KeepsOut source target d where
  vacant := vacant
  outside := outside
  avoids name folder place passes below :=
    (direct place passes).resolve_right fun above => outside name folder (below.trans above)
  resources wrapped := ⟨resources wrapped, direct.avoids (resources wrapped)⟩

theorem wrappedRecipe_keepsOut (target : Path)
    (named : toSource.target? ⟨"recipe"⟩ ⟨"recipe/new"⟩ wrappedRecipe = some target) :
    toSource.KeepsOut ⟨"recipe"⟩ target wrappedRecipe.disk := by
  have known : toSource.target? ⟨"recipe"⟩ ⟨"recipe/new"⟩ wrappedRecipe =
      some ⟨"recipe/new/recipe"⟩ := by decide +kernel
  obtain rfl := Option.some.inj (named.symm.trans known)
  refine .of_direct (.inl (by decide +kernel)) (Disk.direct_of_noStepUp (by decide +kernel)) ?_
    (fun wrapped => absurd wrapped (by decide))
  have place : wrappedRecipe.disk.place ⟨"recipe/new/recipe"⟩ = ["recipe", "new", "recipe"] := by
    decide +kernel
  have source : wrappedRecipe.disk.place ⟨"recipe"⟩ = ["recipe"] := by decide +kernel
  rw [place, source]
  rintro name ⟨content, found⟩ starts
  obtain rfl : name = "new" := by simpa using starts
  have absent : wrappedRecipe.disk.root.at? ["recipe", "new"] = none := by decide +kernel
  rw [List.singleton_append, absent] at found
  cases found

/-- A recipe that is converted to a new folder of its own is not found there again. -/
theorem convert_walks_wrappedRecipe :
    ∃ conversion after,
      (toSource.convert ⟨"recipe"⟩ ⟨"recipe/new"⟩).run wrappedRecipe = .ok conversion after ∧
      after.disk.files ["recipe", "new", "recipe", "build.gradle"] =
        some ⟨"agp $AGP_VERSION, kotlin $KOTLIN_VERSION\nend\n".toUTF8, false⟩ ∧
      after.disk.files ["recipe", "new", "recipe", "new", "recipe", "build.gradle"] = none := by
  have given : (toSource.convert ⟨"recipe"⟩ ⟨"recipe/new"⟩).value? wrappedRecipe =
      some { workingCopied with destination := ⟨"recipe/new/recipe"⟩ } := by
    decide +kernel
  have run := run_eq_ok given
  have stands : wrappedRecipe.disk.root.HasFolder wrappedRecipe.disk.here := Tree.hasFolder_nil
  obtain ⟨-, ends, -⟩ := convert_walks toSource ⟨"recipe"⟩ ⟨"recipe/new"⟩ stands
    wrappedRecipe_ready.sound
  obtain ⟨plan, planned, fills⟩ := (ends wrappedRecipe_keepsOut).2 _ _ run rfl
  obtain rfl := Except.ok.inj planned
  have place : wrappedRecipe.disk.place ⟨"recipe/new/recipe"⟩ = ["recipe", "new", "recipe"] := by
    decide +kernel
  refine ⟨_, _, run, ?_, ?_⟩
  · have file := fills.files ["build.gradle"]
    rw [place] at file
    refine file.trans ?_
    decide +kernel
  · have file := fills.files ["new", "recipe", "build.gradle"]
    rw [place] at file
    refine file.trans ?_
    decide +kernel

/-- A recipe with an empty folder in it. -/
def recipeHolding (folder : String) : Session where
  disk := {
    root := .folder "recipes"
      (.folder "z"
        (.file "recipe_metadata.toml" ⟨"[agpVersion]\nmin = \"8.1.0\"\n".toUTF8, false⟩
          (.folder folder .empty .empty))
        .empty)
      .empty
    here := [] }

theorem convert_walks_fails :
    (¬ ∀ (converter : Converter) (source destination target : Path) (session : Session),
      session.disk.root.HasFolder session.disk.here → session.disk.Sound →
      converter.target? source destination session = some target →
      session.disk.Vacant (session.disk.place target) → session.disk.Direct target →
      (∀ rest, session.disk.place target = session.disk.place source ++ rest →
        rest.all Copy.keepsFolder = true) →
      ∀ depth, converter.reach source session.disk ≤ depth →
        (converter.convertWithin depth source destination).run session =
          (converter.convertWithin (converter.reach source session.disk) source destination).run
            session) ∧
    ¬ ∀ (converter : Converter) (source destination : Path) (session after : Session)
      (conversion : Conversion),
      session.disk.root.HasFolder session.disk.here → session.disk.Sound →
      (converter.convert source destination).run session = .ok conversion after →
      conversion.outcome = .converted →
      session.disk.Vacant (session.disk.place conversion.destination) →
      session.disk.Direct conversion.destination →
      (∀ rest, session.disk.place conversion.destination = session.disk.place source ++ rest →
        rest.all Copy.keepsFolder = true) →
      ∃ plan, converter.mode.plan conversion.descriptor converter.context = .ok plan ∧
        session.disk.Fills after.disk conversion.destination
          (converter.imageFiles plan source session.disk)
          (converter.ImageFolders source session.disk) := by
  constructor
  · intro ends
    have sound : (recipeHolding "sub").disk.Sound := ⟨by decide +kernel, by simp [recipeHolding]⟩
    have known : toSource.target? ⟨"recipes/z"⟩ ⟨"recipes/z/sub"⟩ (recipeHolding "sub") =
        some ⟨"recipes/z/sub/z"⟩ := by decide +kernel
    have same := ends _ _ _ _ _ Tree.hasFolder_nil sound known (.inl (by decide +kernel))
      (Disk.direct_of_noStepUp (by decide +kernel)) ?_ 3 (by decide +kernel)
    · have failures : Action.failure? (toSource.convertWithin 3 ⟨"recipes/z"⟩ ⟨"recipes/z/sub"⟩)
          (recipeHolding "sub") = Action.failure? (toSource.convertWithin
            (toSource.reach ⟨"recipes/z"⟩ (recipeHolding "sub").disk) ⟨"recipes/z"⟩ ⟨"recipes/z/sub"⟩)
            (recipeHolding "sub") := by
        unfold Action.failure?
        rw [same]
      revert failures
      decide +kernel
    · intro rest place
      have way : (recipeHolding "sub").disk.place ⟨"recipes/z/sub/z"⟩ =
          ["recipes", "z"] ++ ["sub", "z"] := by
        decide +kernel
      have start : (recipeHolding "sub").disk.place ⟨"recipes/z"⟩ = ["recipes", "z"] := by decide +kernel
      rw [way, start] at place
      obtain rfl := List.append_cancel_left place
      decide
  · intro determined
    have sound : (recipeHolding "z").disk.Sound := ⟨by decide +kernel, by simp [recipeHolding]⟩
    -- The walk comes to the folder when the recipe's metadata has been copied there.
    have given : (toSource.convert ⟨"recipes/z"⟩ ⟨"recipes/z"⟩).value? (recipeHolding "z") =
        some { workingCopied with
          descriptor := ⟨"z", "z", "z", ⟨8, 1, 0, .final, 0⟩, none, [], none, []⟩
          destination := ⟨"recipes/z/z"⟩ } := by
      decide +kernel
    have way : (recipeHolding "z").disk.place ⟨"recipes/z/z"⟩ = ["recipes", "z"] ++ ["z"] := by
      decide +kernel
    have start : (recipeHolding "z").disk.place ⟨"recipes/z"⟩ = ["recipes", "z"] := by decide +kernel
    obtain ⟨plan, planned, fills⟩ := determined _ _ _ _ _ _ Tree.hasFolder_nil sound
      (run_eq_ok given) rfl (.inr (by decide +kernel)) (Disk.direct_of_noStepUp (by decide +kernel))
      (by
        intro rest place
        rw [way, start] at place
        obtain rfl := List.append_cancel_left place
        decide)
    obtain rfl := Except.ok.inj planned
    have file := fills.files ["z", "recipe_metadata.toml"]
    rw [way] at file
    have left : ((toSource.convert ⟨"recipes/z"⟩ ⟨"recipes/z"⟩).left (recipeHolding "z")).disk.files
        ["recipes", "z", "z", "z", "recipe_metadata.toml"] =
        some ⟨"[agpVersion]\nmin = \"8.1.0\"\n".toUTF8, false⟩ := by decide +kernel
    have image : toSource.imageFiles .unwrap ⟨"recipes/z"⟩ (recipeHolding "z").disk
        ["z", "recipe_metadata.toml"] = none := by decide +kernel
    cases left.symm.trans (file.trans image)

end Converter

end Cookbook
