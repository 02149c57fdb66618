import Cookbook.Proofs.Convert.Confinement
import Cookbook.Proofs.Disk.Edits

/-!
Conversions side by side. What a conversion does with other recipes' folders next to its own is what it
does where they are missing, and it leaves those folders as they are.
-/

namespace Cookbook

/-! ## Paths below the destination -/

/-- That a path goes on from another one with a name. -/
structure Path.Within (p destination : Path) (name : String) : Prop where
  absolute : p.isAbsolute = destination.isAbsolute
  parts : ∃ rest, p.parts = destination.parts ++ name :: rest ∧ ∀ step ∈ rest, ProperName step

namespace Path

variable {p q destination : Path} {name : String}

theorem Within.join (within : p.Within destination name) (relative : q.isAbsolute = false)
    (proper : ∀ step ∈ q.parts, ProperName step) : (p.join q).Within destination name := by
  obtain ⟨rest, parts, restProper⟩ := within.parts
  refine ⟨(isAbsolute_join relative).trans within.absolute, rest ++ q.parts, ?_, ?_⟩
  · rw [parts_join relative, parts, List.append_assoc, List.cons_append]
  · intro step member
    rw [List.mem_append] at member
    exact member.elim (restProper step) (proper step)

theorem Within.joinName (within : p.Within destination name) {step : String}
    (proper : ProperName step) : (p.joinName step).Within destination name := by
  refine within.join (isRelative_of_proper proper) ?_
  simp [parts_single proper, proper]

theorem within_joinName (proper : ProperName name) :
    (destination.joinName name).Within destination name := by
  have relative := isRelative_of_proper proper
  refine ⟨isAbsolute_join relative, [], ?_, List.forall_mem_nil _⟩
  rw [Path.joinName, parts_join relative, parts_single proper]

end Path

namespace Disk

variable {d made : Disk} {p q destination : Path} {name : String} {shown shown' : String → Bool}
  {base place : Location}

theorem Sees.mono (sees : d.Sees shown base p) (more : ∀ name, shown name = true → shown' name = true) :
    d.Sees shown' base p :=
  fun steps starts name rest same => more name (sees steps starts name rest same)

/-- That a path leads to a folder, and passes nothing in there. -/
structure Stage (d : Disk) (destination : Path) : Prop where
  leads : d.Leads destination
  sees : d.Sees nothing (d.place destination) destination

theorem Stage.shows (stage : d.Stage destination) (shown : String → Bool) :
    d.Sees shown (d.place destination) destination :=
  stage.sees.mono fun _ absurdity => nomatch absurdity

theorem place_within (within : p.Within destination name) (proper : ProperName name) :
    ∃ rest, d.place p = d.place destination ++ name :: rest ∧ ∀ step ∈ rest, ProperName step := by
  obtain ⟨rest, parts, restProper⟩ := within.parts
  refine ⟨rest, ?_, restProper⟩
  rw [Disk.place, within.absolute, parts, follow_append, follow_names, Disk.place]
  exact List.forall_mem_cons.mpr ⟨proper, restProper⟩

theorem Stage.owns (stage : d.Stage destination) (proper : ProperName name)
    (within : p.Within destination name) : d.Owns (d.place destination) name p where
  place := (place_within within proper).imp fun _ => And.left
  sees shown seen steps starts := by
    obtain ⟨rest, parts, restProper⟩ := within.parts
    rw [within.absolute]
    rw [parts] at starts
    obtain shorter | ⟨more, rfl⟩ := List.prefix_or_prefix_of_prefix starts (List.prefix_append _ _)
    · exact stage.shows shown steps shorter
    · rw [List.prefix_append_right_inj] at starts
      have moreProper : ∀ step ∈ more, ProperName step := fun step member =>
        List.forall_mem_cons.mpr ⟨proper, restProper⟩ step (starts.subset member)
      intro other below same
      rw [follow_append, follow_names moreProper] at same
      have first : more = other :: below := List.append_cancel_left same
      rw [first, List.cons_prefix_cons] at starts
      rwa [starts.1]

theorem Stage.reaches (stage : d.Stage destination) (proper : ProperName name)
    (within : p.Within destination name) (absolute : q.isAbsolute = p.isAbsolute)
    (front : q.parts <+: p.parts) : d.Reaches (d.place destination) name q where
  sees shown seen := ((stage.owns proper within).sees shown seen).congr rfl absolute front
  place := by
    obtain ⟨rest, parts, restProper⟩ := within.parts
    rw [parts] at front
    obtain shorter | ⟨more, longer⟩ := List.prefix_or_prefix_of_prefix front (List.prefix_append _ _)
    · right
      have there := walk_passes stage.leads.way stage.leads.folder shorter
      rwa [apply_ite List.reverse, List.reverse_nil, List.reverse_reverse, ← within.absolute,
        ← absolute] at there
    · cases more with
      | nil =>
          right
          have same : d.place q = d.place destination := by
            rw [Disk.place, Disk.place, absolute, within.absolute, ← longer, List.append_nil]
          exact same ▸ stage.leads.folder
      | cons step more =>
          left
          rw [← longer, List.prefix_append_right_inj, List.cons_prefix_cons] at front
          obtain ⟨rfl, moreStarts⟩ := front
          have inside : q.Within destination step :=
            ⟨absolute.trans within.absolute, more, longer.symm,
              fun other member => restProper other (moreStarts.subset member)⟩
          exact (stage.owns proper inside).place

theorem leads_masked (sees : d.Sees shown base p) : (d.masked shown base).Leads p ↔ d.Leads p := by
  have folder : (∃ content, folderIn (d.masked shown base).root (d.place p) = .ok content) ↔
      ∃ content, folderIn d.root (d.place p) = .ok content := by
    rw [masked, folderIn_mask sees.visible]
    cases folderIn d.root (d.place p) <;> simp [Except.map]
  simp only [folderIn_iff, exists_and_right] at folder
  constructor
  · rintro ⟨walked, there, usable⟩
    obtain ⟨there, usable⟩ := folder.mp ⟨there, usable⟩
    exact ⟨(way_masked sees).symm.trans walked, there, usable⟩
  · rintro ⟨walked, there, usable⟩
    obtain ⟨there, usable⟩ := folder.mpr ⟨there, usable⟩
    exact ⟨(way_masked sees).trans walked, there, usable⟩

theorem Stage.of_masked (stage : (d.masked shown base).Stage destination)
    (place : d.place destination = base) : d.Stage destination := by
  subst place
  have sees : d.Sees nothing (d.place destination) destination := stage.sees
  exact ⟨(leads_masked (sees.mono fun _ absurdity => nomatch absurdity)).mp stage.leads, sees⟩

/-- That a path leads to a place apart from a folder, past nothing in there. -/
structure Aside (d : Disk) (base : Location) (p : Path) : Prop where
  sees : d.Sees nothing base p
  apart : Apart (d.place p) base

theorem Aside.shows (aside : d.Aside base p) (shown : String → Bool) : d.Sees shown base p :=
  aside.sees.mono fun _ absurdity => nomatch absurdity

theorem Aside.joinName (aside : d.Aside base p) (proper : ProperName name) :
    d.Aside base (p.joinName name) where
  sees steps starts := by
    have relative := Path.isRelative_of_proper proper
    rw [Path.joinName, Path.parts_join relative, Path.parts_single proper,
      List.prefix_concat_iff] at starts
    rw [Path.joinName, Path.isAbsolute_join relative]
    obtain rfl | starts := starts
    · rw [follow_append, follow_proper proper]
      exact Tree.visible_of_not_prefix (aside.apart.notBelow [name])
    · exact aside.sees steps starts
  apart := by
    rw [place_joinName d p proper]
    simpa using aside.apart.append [name] []

theorem Aside.congr (aside : d.Aside base p) (here : made.here = d.here) : made.Aside base p :=
  ⟨aside.sees.congr here rfl List.prefix_rfl, place_congr here p ▸ aside.apart⟩

end Disk

/-! ## Side by side -/

/-- That a session has gone on from another one and changed its disk below one name of the destination
only, and that a second one shows the same but for the other names there. -/
structure Twins (begun : Session) (destination : Path) (name : String) (first second : Session) :
    Prop where
  sound : first.disk.Sound
  own : second.disk = first.disk.masked (· == name) (begun.disk.place destination)
  others : first.disk.masked (· != name) (begun.disk.place destination) = begun.disk
  published : first.published = begun.published

open Action

variable {begun : Session} {source target destination : Path} {name : String} {first second : Session}
  {plan : Plan}

theorem Twins.here (twins : Twins begun destination name first second) :
    first.disk.here = begun.disk.here := by
  have same := congrArg Disk.here twins.others
  exact same

theorem Twins.place (twins : Twins begun destination name first second) (p : Path) :
    first.disk.place p = begun.disk.place p :=
  Disk.place_congr twins.here p

theorem Twins.stage (twins : Twins begun destination name first second)
    (stage : begun.disk.Stage destination) : first.disk.Stage destination := by
  rw [← twins.others] at stage
  exact stage.of_masked (twins.place destination)

theorem list_twins (sees : begun.disk.Sees (· == name) (begun.disk.place destination) source)
    (notAbove : ¬ begun.disk.place source <+: begun.disk.place destination)
    (twins : Twins begun destination name first second) :
    first.disk.list source = second.disk.list source := by
  have seen := sees.congr twins.here rfl List.prefix_rfl
  rw [twins.own, Disk.list_masked seen (twins.place source ▸ notAbove)]

theorem look_twins (aside : begun.disk.Aside (begun.disk.place destination) source)
    (twins : Twins begun destination name first second) :
    AlikeIn (Twins begun destination name) (look source (·.list source)) first second :=
  alikeIn_look twins (list_twins (aside.shows _) aside.apart.above twins)

theorem Copy.depthLimit_twins : Alike (Twins begun destination name) depthLimit := by
  intro first second twins
  refine ⟨?_, twins⟩
  have same := congrArg Disk.pathLimit twins.own
  exact congrArg Except.ok same.symm

theorem Copy.within_rootTarget (within : target.Within destination name) :
    (rootTarget target).Within destination name :=
  within.join Path.isAbsolute_empty (by simp)

section Actions

variable (proper : ProperName name) (stage : begun.disk.Stage destination)

theorem change_twins {path : Path} {f : Disk → Except DiskFault Disk}
    (twins : Twins begun destination name first second)
    (local_ : first.disk.Local (begun.disk.place destination) name f)
    (sound : ∀ made, f first.disk = .ok made → made.Sound) :
    AlikeIn (Twins begun destination name) (change path f) first second := by
  have same := local_.own (· == name) (by simp)
  rw [← twins.own] at same
  cases answer : f first.disk with
  | error fault =>
      rw [answer] at same
      have firstRun : (Action.change path f).run first = .error (.io path fault) first :=
        run_bind_of_error (look_of_error answer)
      have secondRun : (Action.change path f).run second = .error (.io path fault) second :=
        run_bind_of_error (look_of_error same)
      refine ⟨(outcome_of_error firstRun).trans (outcome_of_error secondRun).symm, ?_⟩
      rwa [left_change, left_change, answer, same]
  | ok made =>
      rw [answer] at same
      have firstRun : (Action.change path f).run first = .ok () { first with disk := made } :=
        change_eq_ok.mpr ⟨made, answer, rfl⟩
      have secondRun : (Action.change path f).run second = .ok () { second with
          disk := made.masked (· == name) (begun.disk.place destination) } :=
        change_eq_ok.mpr ⟨_, same, rfl⟩
      refine ⟨(outcome_of_ok firstRun).trans (outcome_of_ok secondRun).symm, ?_⟩
      rw [left_of_ok firstRun, left_of_ok secondRun]
      refine ⟨sound made answer, rfl, ?_, twins.published⟩
      exact (local_.others (· != name) (by simp) made answer).trans twins.others

include proper stage

theorem Twins.owns (twins : Twins begun destination name first second)
    (within : target.Within destination name) :
    first.disk.Owns (begun.disk.place destination) name target :=
  twins.place destination ▸ (twins.stage stage).owns proper within

theorem Twins.sees (twins : Twins begun destination name first second)
    (within : target.Within destination name) :
    first.disk.Sees (· == name) (begun.disk.place destination) target :=
  (twins.owns proper stage within).sees _ (by simp)

theorem createFolders_twins (within : target.Within destination name) :
    Alike (Twins begun destination name) (createFolders target) := by
  intro first second twins
  have now := twins.stage stage
  have reaches (q : Path) (absolute : q.isAbsolute = target.isAbsolute)
      (front : q.parts <+: target.parts) :
      first.disk.Reaches (begun.disk.place destination) name q :=
    twins.place destination ▸ now.reaches proper within absolute front
  have reach : ∀ q ∈ target.above, first.disk.Reaches (begun.disk.place destination) name q := by
    intro q member
    obtain ⟨absolute, front⟩ := Path.of_mem_above member
    exact reaches q absolute front
  have here := reaches target rfl List.prefix_rfl
  have same := Disk.createFolders_masked (· == name) twins.sound here reach (by simp)
  have others := Disk.createFolders_hidden (· != name) twins.sound here reach (by simp)
  have becomes := Disk.createFolders_becomes twins.sound target
  rw [← twins.own] at same
  -- A failure counts as well: the folders made before it are left on both disks.
  cases made : first.disk.createFolders target with
  | mk disk outcome =>
      rw [made] at same others becomes
      have left : Twins begun destination name { first with disk }
          { second with disk := disk.masked (· == name) (begun.disk.place destination) } :=
        ⟨becomes.sound twins.sound, rfl, others.trans twins.others, twins.published⟩
      cases outcome with
      | error fault =>
          have firstRun := createFolders_of_error made
          have secondRun := createFolders_of_error same
          refine ⟨(outcome_of_error firstRun).trans (outcome_of_error secondRun).symm, ?_⟩
          rwa [left_of_error firstRun, left_of_error secondRun]
      | ok _ =>
          have firstRun := createFolders_eq_ok.mpr ⟨disk, made, rfl⟩
          have secondRun := createFolders_eq_ok.mpr ⟨_, same, rfl⟩
          refine ⟨(outcome_of_ok firstRun).trans (outcome_of_ok secondRun).symm, ?_⟩
          rwa [left_of_ok firstRun, left_of_ok secondRun]

namespace Copy

theorem fillFile_twins (plan : Plan) (template : Template) (within : target.Within destination name)
    (sees : ∀ shown, shown name = true → begun.disk.Sees shown (begun.disk.place destination) source) :
    Alike (Twins begun destination name) (fillFile plan template source target) := by
  intro first second twins
  have seen := (sees (· == name) (by simp)).congr twins.here rfl List.prefix_rfl
  have read : AlikeIn (Twins begun destination name) (readText source) first second :=
    alikeIn_look twins (by rw [twins.own, Disk.readText_masked seen])
  refine read.bind ?_
  intro content _
  have left := read.left
  refine change_twins left (Disk.writeFile_local (left.owns proper stage within) _) ?_
  exact fun made written => (Disk.writeFile_becomes left.sound written).sound left.sound

theorem copyFile_twins (within : target.Within destination name)
    (sees : ∀ shown, shown name = true → begun.disk.Sees shown (begun.disk.place destination) source) :
    Alike (Twins begun destination name) (copyFile source target) := by
  intro first second twins
  have seen (shown : String → Bool) (own : shown name = true) :=
    (sees shown own).congr twins.here rfl List.prefix_rfl
  refine change_twins twins (Disk.copyFile_local seen (twins.owns proper stage within)) ?_
  intro made copied
  exact (Disk.copyFile_changesFile twins.sound copied).becomes.sound twins.sound

theorem recipeFile_twins (file : String) (within : target.Within destination name)
    (aside : begun.disk.Aside (begun.disk.place destination) source) :
    Alike (Twins begun destination name) (recipeFile plan file source target) := by
  unfold recipeFile
  split
  · exact fun _ _ twins => alikeIn_pure twins ()
  · exact fillFile_twins proper stage plan _ within fun shown _ => aside.shows shown
  · exact copyFile_twins proper stage within fun shown _ => aside.shows shown

theorem recipeFolder_twins (depth : Nat) (within : target.Within destination name)
    (aside : begun.disk.Aside (begun.disk.place destination) source) :
    Alike (Twins begun destination name) (recipeFolder plan depth source target) := by
  induction depth generalizing source target with
  | zero => exact fun _ _ twins => alikeIn_throw twins _
  | succ depth ih =>
      intro first second twins
      rw [recipeFolder]
      have listing := look_twins aside twins
      refine listing.bind ?_
      intro tree run
      obtain ⟨list, -⟩ := look_eq_ok.mp run
      have names := (Disk.lists_of_list twins.sound list).proper
      have creating := createFolders_twins proper stage within _ _ listing.left
      refine creating.bind ?_
      intro _ _
      refine alike_forM ?_ _ _ creating.left
      rintro ⟨step, entry⟩ member
      have properStep := names _ ((sortBy_perm _ _).mem_iff.mp member)
      dsimp only
      split
      · split
        · exact fun _ _ twins => alikeIn_pure twins ()
        · exact ih (within.joinName properStep) (aside.joinName properStep)
      · exact recipeFile_twins proper stage step (within.joinName properStep)
          (aside.joinName properStep)

theorem wholeFolder_twins (depth : Nat) (within : target.Within destination name)
    (aside : begun.disk.Aside (begun.disk.place destination) source) :
    Alike (Twins begun destination name) (wholeFolder depth source target) := by
  induction depth generalizing source target with
  | zero => exact fun _ _ twins => alikeIn_throw twins _
  | succ depth ih =>
      intro first second twins
      rw [wholeFolder]
      have creating := createFolders_twins proper stage within _ _ twins
      refine creating.bind ?_
      intro _ _
      have listing := look_twins aside creating.left
      refine listing.bind ?_
      intro tree run
      obtain ⟨list, -⟩ := look_eq_ok.mp run
      have names := (Disk.lists_of_list creating.left.sound list).proper
      refine alike_forM ?_ _ _ listing.left
      rintro ⟨step, entry⟩ member
      have properStep := names _ member
      have inside := within.joinName properStep
      have further := aside.joinName properStep
      dsimp only
      split
      · exact ih inside further
      · exact copyFile_twins proper stage inside fun shown _ => further.shows shown

theorem recipe_twins (plan : Plan) (within : target.Within destination name)
    (aside : begun.disk.Aside (begun.disk.place destination) source) :
    Alike (Twins begun destination name) (recipe plan source target) := by
  intro first second twins
  have limit := depthLimit_twins first second twins
  refine limit.bind ?_
  intro depth _
  exact recipeFolder_twins proper stage depth (within_rootTarget within) aside _ _ limit.left

theorem whole_twins (within : target.Within destination name)
    (aside : begun.disk.Aside (begun.disk.place destination) source) :
    Alike (Twins begun destination name) (whole source target) := by
  intro first second twins
  have limit := depthLimit_twins first second twins
  refine limit.bind ?_
  intro depth _
  exact wholeFolder_twins proper stage depth (within_rootTarget within) aside _ _ limit.left

end Copy

theorem clearEntry_twins {folder : Path} (within : folder.Within destination name) {step : String}
    (properStep : ProperName step) :
    Alike (Twins begun destination name) (clearEntry folder step) := by
  intro first second twins
  have inside := within.joinName properStep
  unfold clearEntry
  split
  · refine change_twins twins (Disk.remove_local (twins.owns proper stage inside)) ?_
    exact fun made removed => (Disk.remove_becomes twins.sound removed).sound twins.sound
  · exact alikeIn_pure twins ()

theorem list_within_twins {folder : Path} (within : folder.Within destination name)
    (twins : Twins begun destination name first second) :
    first.disk.list folder = second.disk.list folder := by
  have owns := stage.owns proper within
  refine list_twins (owns.sees _ (by simp)) ?_ twins
  intro above
  obtain ⟨rest, place⟩ := owns.place
  rw [place] at above
  exact absurd above.length_le (by simp)

theorem clearFolder_twins {folder : Path} (within : folder.Within destination name) :
    Alike (Twins begun destination name) (clearFolder folder) := by
  intro first second twins
  have listing : AlikeIn (Twins begun destination name) (look folder (·.list folder)) first second :=
    alikeIn_look twins (list_within_twins proper stage within twins)
  refine listing.bind ?_
  intro tree run
  obtain ⟨list, -⟩ := look_eq_ok.mp run
  have names := (Disk.lists_of_list twins.sound list).proper
  refine alike_forM ?_ _ _ listing.left
  intro entry member
  exact clearEntry_twins proper stage within (names _ member)

namespace Converter

variable {converter : Converter}

theorem clearDestination_twins (converter : Converter) (within : target.Within destination name) :
    Alike (Twins begun destination name) (converter.clearDestination target) := by
  intro first second twins
  have sees := twins.sees proper stage within
  unfold clearDestination
  have asked : AlikeIn (Twins begun destination name) (isFile target) first second :=
    alikeIn_isFile twins (by rw [twins.own, Disk.isFile_masked sees])
  refine asked.throwIf ?_
  have looked : AlikeIn (Twins begun destination name) (isFolder target) first second :=
    alikeIn_isFolder twins (by rw [twins.own, Disk.isFolder_masked sees])
  refine looked.bind ?_
  intro folder _
  split
  · have same : isEmptyFolder first.disk target false = isEmptyFolder second.disk target false := by
      unfold isEmptyFolder
      rw [list_within_twins proper stage within twins]
    have emptied : AlikeIn (Twins begun destination name)
        (look target fun disk => isEmptyFolder disk target false) first second :=
      alikeIn_look twins same
    refine emptied.bind ?_
    intro empty _
    split
    · split
      · exact clearFolder_twins proper stage within _ _ emptied.left
      · exact alikeIn_throw emptied.left _
    · exact alikeIn_pure emptied.left ()
  · exact alikeIn_pure looked.left ()

variable (resources :
  begun.disk.Aside (begun.disk.place destination) converter.context.config.gradleResourcesPath)

include resources

theorem addWrapper_twins (plan : Plan) (within : target.Within destination name) :
    Alike (Twins begun destination name) (converter.addWrapper target plan) := by
  intro first second twins
  have properties : (target.join wrapperProperties).Within destination name :=
    within.join isAbsolute_wrapperProperties proper_wrapperProperties
  have script : (target.join wrapperScript).Within destination name :=
    within.join isAbsolute_wrapperScript (List.forall_mem_singleton.mpr proper_wrapperScript)
  have isFile_ {path : Path} {first second : Session} (inside : path.Within destination name)
      (twins : Twins begun destination name first second) :
      AlikeIn (Twins begun destination name) (isFile path) first second :=
    alikeIn_isFile twins (by rw [twins.own, Disk.isFile_masked (twins.sees proper stage inside)])
  -- Every step looks either at the resources, which are the same for both, or below the own name.
  unfold addWrapper
  have seen := (resources.congr twins.here).shows (· == name)
  have looked : AlikeIn (Twins begun destination name)
      (isFolder converter.context.config.gradleResourcesPath) first second :=
    alikeIn_isFolder twins (by rw [twins.own, Disk.isFolder_masked seen])
  refine looked.throwUnless ?_
  have copied := Copy.whole_twins proper stage within resources _ _ looked.left
  refine copied.bind ?_
  intro _ _
  have asked := isFile_ properties copied.left
  refine asked.throwUnless ?_
  have filled := Copy.fillFile_twins proper stage plan .wrapper properties
    (stage.owns proper properties).sees _ _ asked.left
  refine filled.bind ?_
  intro _ _
  have found := isFile_ script filled.left
  refine found.bind ?_
  intro present _
  split
  · have left := found.left
    refine change_twins left (Disk.setExecutable_local (left.owns proper stage script) true) ?_
    intro made changed
    obtain ⟨data, -, becomes⟩ := Disk.setExecutable_becomes left.sound changed
    exact becomes.sound left.sound
  · exact alikeIn_pure found.left ()

theorem carryOut_twins (within : target.Within destination name)
    (aside : begun.disk.Aside (begun.disk.place destination) source) (descriptor : Descriptor) :
    Alike (Twins begun destination name) (converter.carryOut source target descriptor) := by
  intro first second twins
  unfold carryOut
  have cleared := clearDestination_twins proper stage converter within _ _ twins
  refine cleared.bind ?_
  intro _ _
  split
  · exact alikeIn_pure cleared.left _
  have planned := alikeIn_ofExcept cleared.left (converter.mode.plan descriptor converter.context)
  refine planned.bind ?_
  intro plan _
  have copied := Copy.recipe_twins proper stage plan within aside _ _ planned.left
  refine copied.bind ?_
  intro _ _
  split
  · have wrapped := addWrapper_twins proper stage resources plan within _ _ copied.left
    exact wrapped.bind fun _ _ => alikeIn_pure wrapped.left _
  · exact alikeIn_pure copied.left _

end Converter

end Actions

end Cookbook
