import Cookbook.Proofs.Gradle.Pursuing
import Cookbook.Proofs.Recipe.Describing
import Cookbook.Proofs.Validate.Bounds
import Cookbook.Validate.Internal

/-!
The turn of a recipe that is validated with a plugin that is built locally: it is converted and, if it
supports the release, built. Its tasks are run in the project that it was just converted to, and what it
is to run is known from its metadata.
-/

namespace Cookbook

open Action

/-- What building a recipe in a project is to run. -/
def Descriptor.jobs (descriptor : Descriptor) (project : Path) : List Gradle.Job :=
  descriptor.taskLists.map (project, ·)

theorem Conversion.succeeded_iff {conversion : Conversion} :
    conversion.succeeded = true ↔ conversion.outcome = .converted := decide_eq_true_iff

namespace Validator

variable {validator : Validator} {converter : Converter} {conversion : Conversion}
  {destination recipe root : Path} {recipes : List Path} {session after begun later : Session}
  {jobs : List Gradle.Job} {folder : Location} {target : Target}

/-! ## Builds -/

theorem executor_jobs (executor : Gradle.Executor) (descriptor : Descriptor) :
    executor.jobs descriptor.tasks ++ executor.jobs (descriptor.validationTasks.getD []) =
      descriptor.jobs executor.project := by
  rw [Gradle.Executor.jobs, Gradle.Executor.jobs, ← List.map_append, ← List.filter_append]
  rfl

/-- What is done to build a recipe, in a scratch folder. -/
def buildIn (validator : Validator) (conversion : Conversion) (scratch : Path) : Action Unit := do
  let executor : Gradle.Executor :=
    ⟨conversion.destination, validator.context, validator.gradle, scratch⟩
  executor.execute conversion.descriptor.tasks
  executor.execute (conversion.descriptor.validationTasks.getD [])

theorem build_eq (validator : Validator) (conversion : Conversion) :
    validator.build conversion = withScratch (validator.buildIn conversion) := rfl

theorem buildIn_pursues (validator : Validator) (conversion : Conversion) (scratch : Path)
    (session : Session) :
    Pursues (validator.buildIn conversion scratch) session
      (conversion.descriptor.jobs conversion.destination) True := by
  let executor : Gradle.Executor :=
    ⟨conversion.destination, validator.context, validator.gradle, scratch⟩
  have pursues := executor.executeBoth_pursues conversion.descriptor.tasks
    (conversion.descriptor.validationTasks.getD []) session
  rwa [executor_jobs] at pursues

theorem build_pursues (validator : Validator) (conversion : Conversion) (session : Session) :
    Pursues (validator.build conversion) session
      (conversion.descriptor.jobs conversion.destination)
      (∃ made, session.disk.openScratch = .ok made) := by
  have pursues := pursues_withScratch fun made (_ : session.disk.openScratch = .ok made) =>
    validator.buildIn_pursues conversion session.disk.nextScratch { session with disk := made }
  rw [build_eq]
  simpa only [and_true] using pursues

theorem buildIn_content {scratch : Path} (sound : session.disk.Sound)
    (folder : session.disk.isFolder conversion.destination = true) :
    ∀ run ∈ ((validator.buildIn conversion scratch).runsOf session).head?, ∀ rest,
      run.content.fileAt? rest =
        session.disk.files (session.disk.place conversion.destination ++ rest) := by
  intro run member
  let executor : Gradle.Executor :=
    ⟨conversion.destination, validator.context, validator.gradle, scratch⟩
  have content (tasks : List String) :
      ∀ run ∈ (executor.execute tasks).runsOf session, ∀ rest, run.content.fileAt? rest = _ :=
    executor.execute_content sound folder
  have begins := executor.execute_pursues conversion.descriptor.tasks session
  have goes (between : Session) := executor.execute_pursues
    (conversion.descriptor.validationTasks.getD []) between
  cases first : (executor.execute conversion.descriptor.tasks).run session with
  | error failure between =>
      have same : (validator.buildIn conversion scratch).runsOf session = _ :=
        runsOf_bind_of_error first
      rw [same] at member
      exact content _ run (List.mem_of_mem_head? member)
  | ok result between =>
      have both : (validator.buildIn conversion scratch).runsOf session = _ :=
        runsOf_bind_of_ok first begins.left (goes between).left
      rw [both] at member
      -- Without tasks the first run, if there is one, is for the validation tasks.
      by_cases none : conversion.descriptor.tasks = []
      · rw [none] at first member
        obtain ⟨-, rfl⟩ := pure_eq_ok.mp first
        have nothing : (executor.execute []).runsOf session = [] :=
          runsOf_of_left (List.append_nil _).symm
        rw [nothing, List.nil_append] at member
        exact content _ run (List.mem_of_mem_head? member)
      · obtain ⟨-, all, -⟩ := begins.succeeds.mp (by rw [value?_of_ok first]; rfl)
        have some : (executor.execute conversion.descriptor.tasks).runsOf session ≠ [] := by
          intro nothing
          rw [nothing, executor.jobs_some none] at all
          cases all
        rw [List.head?_append_of_ne_nil _ some] at member
        exact content _ run (List.mem_of_mem_head? member)

theorem build_content (sound : session.disk.Sound)
    (folder : session.disk.isFolder conversion.destination = true) :
    ∀ run ∈ ((validator.build conversion).runsOf session).head?, ∀ rest,
      run.content.fileAt? rest =
        session.disk.files (session.disk.place conversion.destination ++ rest) := by
  rw [build_eq]
  cases opened : session.disk.openScratch with
  | error fault =>
      have nothing : (withScratch (validator.buildIn conversion)).runsOf session = [] := by
        apply runsOf_of_left
        rw [left_of_error (withScratch_of_unopened opened), List.append_nil]
      rw [nothing]
      exact fun run member => nomatch member
  | ok made =>
      have countedSound : session.disk.countScratch.Sound := ⟨sound.root, sound.here⟩
      have becomes := Disk.createFolder_becomes countedSound opened
      have keeps := (Disk.createFolder_adds opened).keeps
      have still : made.isFolder conversion.destination = true :=
        Disk.isFolder_mono becomes.same keeps folder
      have files : made.files = session.disk.files := becomes.files
      have place : made.place conversion.destination = session.disk.place conversion.destination :=
        Disk.place_congr becomes.here _
      rw [runsOf_withScratch opened]
      rw [← files, ← place]
      exact buildIn_content (becomes.sound countedSound) still

theorem build_remembers (validator : Validator) (conversion : Conversion) :
    Keeps Remembers (validator.build conversion) := by
  rw [build_eq]
  refine withScratch_remembers fun scratch => ?_
  let executor : Gradle.Executor :=
    ⟨conversion.destination, validator.context, validator.gradle, scratch⟩
  exact keeps_bind (executor.execute_remembers _) fun _ => executor.execute_remembers _

theorem build_sparesIn (leaves : Gradle.LeavesFiles validator.gradle folder) (conversion : Conversion) :
    Keeps (SparesIn folder) (validator.build conversion) := by
  rw [build_eq]
  refine withScratch_sparesIn fun scratch => ?_
  let executor : Gradle.Executor :=
    ⟨conversion.destination, validator.context, validator.gradle, scratch⟩
  have executes (tasks : List String) : Keeps (SparesIn folder) (executor.execute tasks) :=
    Gradle.Executor.execute_sparesIn leaves tasks
  exact keeps_bind (executes _) fun _ => executes _

/-! ## Conversions -/

theorem convert_runs (converter : Converter) (recipe destination : Path) (session : Session) :
    ((converter.convert recipe destination).left session).runs = session.runs := by
  obtain ⟨loaded, reads, touches⟩ := converter.convert_touches recipe destination session
  rw [touches.runs, reads.runs]

theorem convert_remembers (converter : Converter) (recipe destination : Path) :
    Keeps Remembers (converter.convert recipe destination) := by
  intro session
  obtain ⟨loaded, reads, touches⟩ := converter.convert_touches recipe destination session
  exact trans_of Remembers reads.remembers (remembers_of_published touches.published)

theorem convert_loads (run : (converter.convert recipe destination).run session =
      .ok conversion after) :
    ∃ loaded, (Descriptor.load recipe converter.context).run session =
        .ok conversion.descriptor loaded ∧ Remembers loaded after := by
  obtain ⟨loaded, _, load, -⟩ := Converter.convert_eq_ok run
  rw [Converter.convert_eq] at run
  obtain ⟨between, looked, run⟩ := throwUnless_eq_ok.mp run
  obtain ⟨-, rfl⟩ := isFolder_eq_ok.mp looked
  rw [run_bind_of_ok load] at run
  have carries := (Converter.carryOut_onDisk recipe _ conversion.descriptor).ok run
  exact ⟨loaded, load, remembers_of_published carries.published⟩

/-! ## Turns -/

/-- What is done in a turn once the recipe is converted. -/
def finish (validator : Validator) (conversion : Conversion) : Action Bool := do
  if conversion.succeeded then validator.build conversion
  return conversion.succeeded

theorem validateInto_eq (validator : Validator) (converter : Converter) (destination recipe : Path) :
    validator.validateInto converter destination recipe =
      converter.convert recipe destination >>= validator.finish := rfl

theorem finish_keeps {relation : Session → Session → Prop} [IsPreorder Session relation]
    (builds : Keeps relation (validator.build conversion)) :
    Keeps relation (validator.finish conversion) := by
  unfold finish
  split
  · exact keeps_bind builds fun _ => keeps_pure _
  · exact keeps_bind (keeps_pure ()) fun _ => keeps_pure _

theorem finish_eq_ok {supported : Bool}
    (run : (validator.finish conversion).run session = .ok supported after) :
    supported = conversion.succeeded := by
  unfold finish at run
  cases succeeded : conversion.succeeded with
  | false =>
      simp only [succeeded] at run
      exact (pure_eq_ok.mp run).1.symm
  | true =>
      simp only [succeeded] at run
      obtain ⟨⟨⟩, between, -, done⟩ := bind_eq_ok.mp run
      exact (pure_eq_ok.mp done).1.symm

theorem validateInto_remembers (validator : Validator) (converter : Converter)
    (destination recipe : Path) :
    Keeps Remembers (validator.validateInto converter destination recipe) :=
  keeps_bind (convert_remembers converter recipe destination) fun conversion =>
    finish_keeps (build_remembers validator conversion)

/-- What the turn of a recipe takes besides runs that succeed: it is converted or does not support the
release, and there is a scratch folder for its build. -/
def Able (converter : Converter) (destination : Path) (turn : Visit) : Prop :=
  ∃ conversion after,
    (converter.convert turn.folder destination).run turn.session = .ok conversion after ∧
      (conversion.outcome = .converted → ∃ made, after.disk.openScratch = .ok made)

theorem finish_pursues (validator : Validator) (conversion : Conversion) (session : Session) :
    Pursues (validator.finish conversion) session
      (if conversion.succeeded then conversion.descriptor.jobs conversion.destination else [])
      (conversion.outcome = .converted → ∃ made, session.disk.openScratch = .ok made) := by
  unfold finish
  rw [← Conversion.succeeded_iff]
  cases conversion.succeeded with
  | false => exact pursues_none rfl (iff_of_true rfl ⟨fun converted => (nomatch converted), rfl⟩)
  | true =>
      have built := (validator.build_pursues conversion session).map fun _ => true
      refine built.congr ?_ ?_
      · exact fun succeeds _ => (built.succeeds.mp succeeds).1
      · exact fun able _ _ => able rfl

theorem validateInto_pursues
    (known : ∀ conversion after,
      (converter.convert recipe destination).run session = .ok conversion after →
        jobs = if conversion.succeeded then conversion.descriptor.jobs conversion.destination else []) :
    Pursues (validator.validateInto converter destination recipe) session jobs
      (Able converter destination ⟨recipe, session⟩) := by
  have runs := convert_runs converter recipe destination session
  cases converting : (converter.convert recipe destination).run session with
  | error failure after =>
      have run : (validator.validateInto converter destination recipe).run session =
          .error failure after := run_bind_of_error converting
      refine pursues_none ?_ ?_
      · rw [left_of_error run, ← left_of_error converting, runs]
      · rw [value?_of_error run]
        refine iff_of_false Bool.false_ne_true ?_
        rintro ⟨⟨_, _, converted, -⟩, -⟩
        rw [converting] at converted
        cases converted
  | ok conversion after =>
      have run : (validator.validateInto converter destination recipe).run session =
          (validator.finish conversion).run after := run_bind_of_ok converting
      rw [left_of_ok converting] at runs
      rw [known conversion after converting]
      refine Pursues.of_run ((validator.finish_pursues conversion after).congr ?_ ?_) run runs
      · intro succeeds
        exact ⟨conversion, after, converting,
          ((validator.finish_pursues conversion after).succeeds.mp succeeds).1⟩
      · rintro ⟨_, _, converted, opens⟩ - -
        rw [converting] at converted
        cases converted
        exact opens

/-- The runs that are made in a turn. -/
def runsIn (validator : Validator) (converter : Converter) (destination : Path) (turn : Visit) :
    List Gradle.Run :=
  (validator.validateInto converter destination turn.folder).runsOf turn.session

theorem validateInto_runs (validator : Validator) (converter : Converter) (destination recipe : Path)
    (session : Session) :
    ((validator.validateInto converter destination recipe).left session).runs =
      session.runs ++ validator.runsIn converter destination ⟨recipe, session⟩ := by
  let jobs := ((converter.convert recipe destination).value? session).elim [] fun conversion =>
    if conversion.succeeded then conversion.descriptor.jobs conversion.destination else []
  have known (conversion : Conversion) (after : Session)
      (run : (converter.convert recipe destination).run session = .ok conversion after) :
      jobs = if conversion.succeeded then conversion.descriptor.jobs conversion.destination else [] := by
    simp only [jobs, value?_of_ok run, Option.elim_some]
  exact (validateInto_pursues known).left

theorem runsIn_of_convert {turn : Visit}
    (run : (converter.convert turn.folder destination).run turn.session = .ok conversion after) :
    validator.runsIn converter destination turn =
      if conversion.succeeded then (validator.build conversion).runsOf after else [] := by
  have runs := convert_runs converter turn.folder destination turn.session
  rw [left_of_ok run] at runs
  have same : validator.runsIn converter destination turn = (validator.finish conversion).runsOf after := by
    rw [runsIn, validateInto_eq, runsOf, left_bind_of_ok run, ← runs, runsOf]
  rw [same]
  unfold finish
  split
  · exact runsOf_map _
  · exact runsOf_of_left (List.append_nil _).symm

/-- That the first run of a turn finds the project as the recipe was converted to it. -/
def FindsProject (validator : Validator) (converter : Converter) (destination : Path) (turn : Visit) :
    Prop :=
  ∀ conversion after,
    (converter.convert turn.folder destination).run turn.session = .ok conversion after →
      ∀ run ∈ (validator.runsIn converter destination turn).head?, ∀ rest,
        run.content.fileAt? rest =
          after.disk.files (after.disk.place conversion.destination ++ rest)

theorem findsProject {turn : Visit} (sound : turn.session.disk.Sound) (named : turn.folder.name ≠ "") :
    validator.FindsProject converter destination turn := by
  intro conversion after run
  have left : converter.leaves destination turn = after := left_of_ok run
  have becomes := @Converter.leaves_becomes converter destination turn sound
  rw [left] at becomes
  rw [runsIn_of_convert run]
  cases succeeded : conversion.succeeded with
  | false => exact fun run member => nomatch member
  | true =>
      have converted : converter.conversion? destination turn = some conversion := by
        rw [Converter.conversion?_eq_some, left]
        exact ⟨run, Conversion.succeeded_iff.mp succeeded⟩
      have folder := Converter.conversion_isFolder sound named converted
      rw [left] at folder
      exact build_content (becomes.sound sound) folder

/-! ## What is planned -/

/-- The descriptors of the recipes that support a release. -/
def supporting (d : Disk) (latest : ReleaseLine → Except Failure Release) (release : Release)
    (recipes : List Path) : List Descriptor :=
  (recipes.filterMap (d.descriptor? latest)).filter (·.supports release)

/-- What is to be run for recipes that are put in a folder. -/
def planned (destination : Path) (descriptors : List Descriptor) : List Gradle.Job :=
  descriptors.flatMap fun descriptor => descriptor.jobs (destination.joinName descriptor.destination)

theorem supporting_cons (d : Disk) (latest : ReleaseLine → Except Failure Release) (release : Release)
    (recipe : Path) (recipes : List Path) :
    supporting d latest release (recipe :: recipes) =
      supporting d latest release [recipe] ++ supporting d latest release recipes := by
  rw [supporting, supporting, supporting, ← List.filter_append, ← List.filterMap_append]
  rfl

theorem planned_append (destination : Path) (descriptors others : List Descriptor) :
    planned destination (descriptors ++ others) =
      planned destination descriptors ++ planned destination others :=
  List.flatMap_append

/-! ## Recipes of a source -/

/-- That recipes of a source are converted for a release, apart from the source, and that Gradle leaves the
files there as they are. -/
structure Away (validator : Validator) (converter : Converter) (target : Target) (d : Disk)
    (root destination : Path) : Prop where
  mode : converter.mode = .release target
  sound : d.Sound
  apart : Apart (d.place root) (d.place destination)
  leaves : Gradle.LeavesFiles validator.gradle (d.place root)

/-- That a recipe is in the source and asks for a destination that is a folder's name. -/
structure Sourced (d : Disk) (root recipe : Path) : Prop where
  below : d.place root <+: d.place recipe
  named : recipe.name ≠ ""
  described : d.files (d.place recipe ++ [Descriptor.fileName]) ≠ none
  ordinary : ∀ descriptor, d.Describes recipe descriptor → ProperName descriptor.destination

theorem sourced_of_found {d : Disk} (sound : d.Sound) (found : findRecipes d root = .ok recipes)
    (ordinary : ∀ recipe ∈ recipes, ∀ descriptor, d.Describes recipe descriptor →
      ProperName descriptor.destination) : ∀ recipe ∈ recipes, Sourced d root recipe := by
  intro recipe member
  obtain ⟨names, nonempty, proper, rfl, described⟩ := mem_findRecipes sound found member
  refine ⟨?_, ?_, described, ordinary _ member⟩
  · rw [Disk.place_joinNames _ _ proper]
    exact List.prefix_append _ _
  · exact (Path.proper_name_joinNames root nonempty proper).nonempty

theorem Sourced.still (sourced : Sourced begun.disk root recipe) (sound : begun.disk.Sound)
    (kept : SparesIn (begun.disk.place root) begun session) :
    session.disk.here = begun.disk.here ∧
      session.disk.files (begun.disk.place recipe ++ [Descriptor.fileName]) =
        begun.disk.files (begun.disk.place recipe ++ [Descriptor.fileName]) := by
  obtain ⟨-, here, spares⟩ := kept sound
  exact ⟨here, spares _ (sourced.below.trans (List.prefix_append _ _)) sourced.described⟩

theorem Sourced.describes {descriptor : Descriptor} (sourced : Sourced begun.disk root recipe)
    (sound : begun.disk.Sound) (kept : SparesIn (begun.disk.place root) begun session)
    (describes : session.disk.Describes recipe descriptor) : begun.disk.Describes recipe descriptor := by
  obtain ⟨here, same⟩ := sourced.still sound kept
  have place := Disk.place_congr here recipe
  refine describes.congr place.symm ?_
  rw [place]
  exact same.symm

section Away

variable (away : validator.Away converter target begun.disk root destination)
  (sourced : Sourced begun.disk root recipe) (kept : SparesIn (begun.disk.place root) begun session)
include away sourced kept

theorem convert_sparesIn :
    SparesIn (begun.disk.place root) begun ((converter.convert recipe destination).left session) := by
  refine trans_of (SparesIn _) kept ?_
  intro sound
  obtain ⟨-, here, -⟩ := kept away.sound
  have becomes : session.disk.Becomes ((converter.convert recipe destination).left session).disk
      ((converter.convert recipe destination).left session).disk.files :=
    @Converter.leaves_becomes converter destination ⟨recipe, session⟩ sound
  refine ⟨becomes.sound sound, becomes.here, ?_⟩
  rw [← Disk.place_congr here root]
  refine Converter.convert_sparesSource sound (.refl sound) (.refl _) ?_
  intro descriptor describes
  have before := sourced.describes away.sound kept describes
  rw [away.mode]
  refine Disk.NoneShared.of_apart (sourced.ordinary descriptor before) ?_
  rw [Disk.place_congr here, Disk.place_congr here]
  exact away.apart

theorem turn_sparesIn :
    SparesIn (begun.disk.place root) begun
      ((validator.validateInto converter destination recipe).left session) := by
  have converts := convert_sparesIn away sourced kept
  rw [validateInto_eq]
  cases converting : (converter.convert recipe destination).run session with
  | error failure after =>
      rw [left_bind_of_error converting, ← left_of_error converting]
      exact converts
  | ok conversion after =>
      rw [left_bind_of_ok converting]
      rw [left_of_ok converting] at converts
      exact trans_of (SparesIn _) converts
        (finish_keeps (build_sparesIn away.leaves conversion) after)

theorem supporting_of_convert
    (run : (converter.convert recipe destination).run session = .ok conversion after)
    (remembers : Remembers after later) :
    supporting begun.disk later.latest target.release [recipe] =
        (if conversion.succeeded then [conversion.descriptor] else []) ∧
      conversion.destination = destination.joinName conversion.descriptor.destination := by
  obtain ⟨here, still⟩ := sourced.still away.sound kept
  obtain ⟨loaded, load, remembers'⟩ := convert_loads run
  have given := Descriptor.descriptor?_of_load load (trans_of Remembers remembers' remembers)
  rw [Disk.descriptor?_congr here still] at given
  have outcome := convert_outcome run
  obtain ⟨_, _, -, name, -, -⟩ := Converter.convert_eq_ok run
  rw [away.mode] at outcome name
  refine ⟨?_, name⟩
  have same : conversion.succeeded = conversion.descriptor.supports target.release := by
    rw [Bool.eq_iff_iff, Conversion.succeeded_iff]
    exact outcome
  rw [same, supporting, List.filterMap_cons_some given, List.filterMap_nil, List.filter_singleton,
    Bool.cond_eq_ite]

theorem turn_pursues
    (remembers : Remembers ((validator.validateInto converter destination recipe).left session) later) :
    Pursues (validator.validateInto converter destination recipe) session
      (planned destination (supporting begun.disk later.latest target.release [recipe]))
      (Able converter destination ⟨recipe, session⟩) := by
  refine validateInto_pursues ?_
  intro conversion after run
  have finishes := finish_keeps (build_remembers validator conversion) after
  rw [validateInto_eq, left_bind_of_ok run] at remembers
  obtain ⟨supports, name⟩ := supporting_of_convert away sourced kept run
    (trans_of Remembers finishes remembers)
  rw [supports, name]
  cases conversion.succeeded with
  | false => rfl
  | true => simp [planned]

theorem turn_supported {supported : Bool}
    (run : (validator.validateInto converter destination recipe).run session = .ok supported after)
    (remembers : Remembers after later) :
    (supporting begun.disk later.latest target.release [recipe]).length =
      if supported then 1 else 0 := by
  rw [validateInto_eq] at run
  obtain ⟨conversion, converted, converting, finishing⟩ := bind_eq_ok.mp run
  have finishes := (finish_keeps (build_remembers validator conversion)).ok finishing
  obtain ⟨supports, -⟩ := supporting_of_convert away sourced kept converting
    (trans_of Remembers finishes remembers)
  obtain rfl := finish_eq_ok finishing
  rw [supports]
  cases conversion.succeeded <;> rfl

end Away

end Validator
end Cookbook
