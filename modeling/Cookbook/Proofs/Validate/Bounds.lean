import Cookbook.Proofs.Convert.Touching
import Cookbook.Proofs.Gradle.Executing
import Cookbook.Validate.Bounds

/-!
Validating recipes at the bounds of the releases they support. A validation that succeeds has converted
the recipe for each bound and, if the recipe supports the bound, has run its tasks with success; a bound
that the recipe does not support is passed over without a run.
-/

namespace Cookbook

open Action

/-! ## Building -/

/-- The lists of tasks that building a recipe runs, in order. -/
def Descriptor.taskLists (descriptor : Descriptor) : List (List String) :=
  [descriptor.tasks, descriptor.validationTasks.getD []].filter (!·.isEmpty)

/-- That the runs are what building a converted recipe takes, all in the project it was written to and
all with success. -/
structure Conversion.BuiltBy (conversion : Conversion) (runs : List Gradle.Run) : Prop where
  tasks : runs.map (·.tasks) = conversion.descriptor.taskLists
  project : ∀ run ∈ runs, run.invocation.project = conversion.destination
  asked : ∀ run ∈ runs, run.tasks <:+ run.invocation.arguments
  succeeded : ∀ run ∈ runs, run.ending.succeeded = true

namespace Validator

variable {validator : Validator} {recipe : Path} {release : Release} {session after : Session}
  {conversion : Conversion}

theorem execute_runs {executor : Gradle.Executor} {tasks : List String}
    (run : (executor.execute tasks).run session = .ok () after) :
    Remembers session after ∧ ∃ runs, after.runs = session.runs ++ runs ∧
      runs.map (·.tasks) = [tasks].filter (!·.isEmpty) ∧
      ∀ run ∈ runs, run.invocation.project = executor.project ∧
        run.tasks <:+ run.invocation.arguments ∧ run.ending.succeeded = true := by
  obtain ⟨rfl, rfl⟩ | ⟨some, begun, touches, published, runs, succeeded⟩ :=
    Gradle.Executor.execute_eq_ok run
  · exact ⟨refl_of Remembers session, [], by simp⟩
  · refine ⟨remembers_of_published (by rw [published, touches.published]),
      [executor.noted tasks begun], ?_, ?_, ?_⟩
    · rw [runs, touches.runs]
    · simp [Gradle.Executor.noted, some]
    · rw [List.forall_mem_singleton]
      exact ⟨rfl, executor.tasks_suffix tasks, succeeded⟩

theorem build_eq_ok (run : (validator.build conversion).run session = .ok () after) :
    Remembers session after ∧
      ∃ runs, after.runs = session.runs ++ runs ∧ conversion.BuiltBy runs := by
  unfold build Gradle.withExecutor at run
  obtain ⟨made, ended, -, executed, rfl⟩ := withScratch_eq_ok.mp run
  obtain ⟨⟨⟩, between, first, second⟩ := bind_eq_ok.mp executed
  obtain ⟨remembers, runs, noted, tasks, each⟩ := execute_runs first
  obtain ⟨remembers', runs', noted', tasks', each'⟩ := execute_runs second
  have both : ∀ run ∈ runs ++ runs', run.invocation.project = conversion.destination ∧
      run.tasks <:+ run.invocation.arguments ∧ run.ending.succeeded = true :=
    List.forall_mem_append.mpr ⟨each, each'⟩
  refine ⟨?_, runs ++ runs', ?_, ?_, ?_, ?_, ?_⟩
  · refine trans_of Remembers remembers (trans_of Remembers remembers' ?_)
    exact remembers_of_published (Session.dropScratch_published _ _)
  · rw [Session.dropScratch_runs, noted', noted, List.append_assoc]
  · rw [List.map_append, tasks, tasks', ← List.filter_append]
    rfl
  · exact fun run member => (both run member).1
  · exact fun run member => (both run member).2.1
  · exact fun run member => (both run member).2.2

/-! ## Trials -/

/-- A recipe that was tried at a release: what it was converted for, the disk with its scratch folder,
how it was converted there and which runs were made. -/
structure Trial where
  target : Target
  opened : Disk
  conversion : Conversion
  converted : Session
  runs : List Gradle.Run

/-- That a recipe was tried at a release between two sessions. It was built if it supports the release;
if it does not, nothing was run. -/
structure Tries (validator : Validator) (recipe : Path) (release : Release) (session after : Session)
    (trial : Trial) : Prop where
  target : trial.target.release = release
  opened : session.disk.openScratch = .ok trial.opened
  converted : (Converter.convert { mode := .release trial.target, context := validator.context }
    recipe session.disk.nextScratch).run { session with disk := trial.opened } =
      .ok trial.conversion trial.converted
  remembers : Remembers session after
  runs : after.runs = session.runs ++ trial.runs
  built : trial.conversion.descriptor.supports release = true →
    trial.conversion.outcome = .converted ∧ trial.conversion.BuiltBy trial.runs
  passedOver : trial.conversion.descriptor.supports release = false →
    trial.conversion.outcome = .nonCompliant ∧ trial.runs = []

theorem resolve_release {gradle : String} {target : Target} {context : Context}
    (resolved : Target.resolve release (some gradle) context = .ok target) :
    target.release = release := by
  cases resolved
  rfl

theorem convert_outcome {converter : Converter} {destination : Path}
    (run : (converter.convert recipe destination).run session = .ok conversion after) :
    conversion.outcome = .converted ↔ converter.mode.accepts conversion.descriptor = true := by
  obtain ⟨_, _, -, -, -, ended⟩ := Converter.convert_eq_ok run
  cases outcome : conversion.outcome with
  | converted => simpa [outcome] using (outcome ▸ ended).1
  | nonCompliant => simpa [outcome] using (outcome ▸ ended).1

/-- Trying a recipe converts it in a scratch folder for the release, which runs nothing, and builds it if
that succeeds. -/
theorem validateAt_converts (run : (validator.validateAt recipe release).run session = .ok () after) :
    ∃ target opened conversion converted ended, target.release = release ∧
      session.disk.openScratch = .ok opened ∧
      (Converter.convert { mode := .release target, context := validator.context }
        recipe session.disk.nextScratch).run { session with disk := opened } =
          .ok conversion converted ∧
      Remembers session converted ∧ converted.runs = session.runs ∧
      (if conversion.succeeded then validator.build conversion else pure ()).run converted =
        .ok () ended ∧
      after = ended.dropScratch session.disk.nextScratch := by
  unfold validateAt at run
  obtain ⟨gradle, _, mapping, run⟩ := bind_eq_ok.mp run
  obtain ⟨-, rfl⟩ := ofExcept_eq_ok.mp mapping
  obtain ⟨target, _, resolving, run⟩ := bind_eq_ok.mp run
  obtain ⟨resolved, rfl⟩ := ofExcept_eq_ok.mp resolving
  obtain ⟨opened, ended, opens, tried, rfl⟩ := withScratch_eq_ok.mp run
  obtain ⟨conversion, converted, converting, finishing⟩ := bind_eq_ok.mp tried
  obtain ⟨loaded, reads, touches⟩ := Converter.convert_touches
    { mode := .release target, context := validator.context } recipe session.disk.nextScratch
    { session with disk := opened }
  rw [left_of_ok converting] at touches
  exact ⟨target, opened, conversion, converted, ended, resolve_release resolved, opens, converting,
    trans_of Remembers reads.remembers (remembers_of_published touches.published),
    by rw [touches.runs, reads.runs], finishing, rfl⟩

theorem validateAt_eq_ok (run : (validator.validateAt recipe release).run session = .ok () after) :
    ∃ trial, validator.Tries recipe release session after trial := by
  obtain ⟨target, opened, conversion, converted, ended, same, opens, converting, remembers, noRuns,
    finishing, rfl⟩ := validateAt_converts run
  have dropped (ended : Session) : Remembers ended (ended.dropScratch session.disk.nextScratch) :=
    remembers_of_published (Session.dropScratch_published _ _)
  have outcome : conversion.outcome = .converted ↔ conversion.descriptor.supports release = true := by
    rw [convert_outcome converting, ← same]
    rfl
  cases succeeded : conversion.succeeded with
  | true =>
      simp only [succeeded, if_true] at finishing
      have compliant : conversion.outcome = .converted := by
        simpa [Conversion.succeeded] using succeeded
      obtain ⟨remembers', runs, noted, builtBy⟩ := build_eq_ok finishing
      refine ⟨⟨target, opened, conversion, converted, runs⟩, same, opens, converting, ?_, ?_, ?_, ?_⟩
      · exact trans_of Remembers remembers (trans_of Remembers remembers' (dropped _))
      · rw [Session.dropScratch_runs, noted, noRuns]
      · exact fun _ => ⟨compliant, builtBy⟩
      · intro refused
        rw [outcome.mp compliant] at refused
        cases refused
  | false =>
      simp only [succeeded, Bool.false_eq_true, if_false] at finishing
      obtain ⟨-, rfl⟩ := pure_eq_ok.mp finishing
      have unsupported : conversion.outcome ≠ .converted := by
        simpa [Conversion.succeeded] using succeeded
      refine ⟨⟨target, opened, conversion, converted, []⟩, same, opens, converting, ?_, ?_, ?_, ?_⟩
      · exact trans_of Remembers remembers (dropped _)
      · rw [Session.dropScratch_runs, noRuns, List.append_nil]
      · exact fun supported => absurd (outcome.mpr supported) unsupported
      · cases refused : conversion.outcome with
        | converted => exact absurd refused unsupported
        | nonCompliant => exact fun _ => ⟨rfl, rfl⟩

theorem Tries.descriptor {trial : Trial} {loaded : Session} {descriptor : Descriptor} {begun : Session}
    (tries : validator.Tries recipe release session after trial)
    (load : (Descriptor.load recipe validator.context).run begun = .ok descriptor loaded)
    (remembers : Remembers loaded session)
    (still : ∀ text, loaded.disk.readText (recipe.joinName Descriptor.fileName) = .ok text →
      session.disk.readText (recipe.joinName Descriptor.fileName) = .ok text) :
    trial.conversion.descriptor = descriptor := by
  obtain ⟨read, _, reading, -⟩ := Converter.convert_eq_ok tries.converted
  have again : (Descriptor.load recipe validator.context).run
      { session with disk := trial.opened } = .ok descriptor { session with disk := trial.opened } := by
    refine Descriptor.load_again load ?_ remembers
    exact fun text there => Disk.openScratch_readText tries.opened (still text there)
  rw [again] at reading
  cases reading
  rfl

/-! ## Both bounds -/

/-- What a successful validation at the bounds comes to. The recipe is tried at its least release and,
if that is another one, at the greatest published release of its range. -/
def Validates (validator : Validator) (recipe : Path) (session after : Session) : Prop :=
  ∃ descriptor loaded least between greatest fetched,
    (Descriptor.load recipe validator.context).run session = .ok descriptor loaded ∧
    validator.Tries recipe descriptor.minimum loaded between least ∧
    least.conversion.descriptor = descriptor ∧
    (validator.greatest descriptor).run between = .ok greatest fetched ∧
    if greatest = descriptor.minimum then fetched = after
    else ∃ most, validator.Tries recipe greatest fetched after most ∧
      -- Gradle is free to change the recipe in between.
      ((∀ text, loaded.disk.readText (recipe.joinName Descriptor.fileName) = .ok text →
        fetched.disk.readText (recipe.joinName Descriptor.fileName) = .ok text) →
        most.conversion.descriptor = descriptor)

def ValidatesAll (validator : Validator) : List Path → Session → Session → Prop
  | [], session, after => session = after
  | recipe :: recipes, session, after => ∃ between,
      validator.Validates recipe session between ∧ validator.ValidatesAll recipes between after

theorem greatest_reads (validator : Validator) (descriptor : Descriptor) :
    Keeps Reads (validator.greatest descriptor) := by
  unfold greatest
  split
  · exact Context.publishedRelease_reads _ _
  · exact Context.greatestRelease_reads _

theorem validate_eq_ok (unfixed : validator.release = none)
    (run : (validator.validate recipe).run session = .ok () after) :
    validator.Validates recipe session after := by
  unfold validate at run
  obtain ⟨descriptor, loaded, load, run⟩ := bind_eq_ok.mp run
  rw [unfixed] at run
  obtain ⟨⟨⟩, between, first, run⟩ := bind_eq_ok.mp run
  obtain ⟨greatest, fetched, fetching, run⟩ := bind_eq_ok.mp run
  obtain ⟨least, tries⟩ := validateAt_eq_ok first
  have reads := (greatest_reads validator descriptor).ok fetching
  have descriptor_ : least.conversion.descriptor = descriptor :=
    tries.descriptor load (refl_of Remembers loaded) fun _ there => there
  refine ⟨descriptor, loaded, least, between, greatest, fetched, load, tries, descriptor_,
    fetching, ?_⟩
  by_cases same : greatest = descriptor.minimum
  · simp only [same, ne_eq, not_true_eq_false, if_false] at run
    rw [if_pos same]
    exact (pure_eq_ok.mp run).2
  · simp only [ne_eq, same, not_false_eq_true, if_true] at run
    rw [if_neg same]
    obtain ⟨most, triesMost⟩ := validateAt_eq_ok run
    refine ⟨most, triesMost, ?_⟩
    exact triesMost.descriptor load (trans_of Remembers tries.remembers reads.remembers)

theorem validateAll_eq_ok (unfixed : validator.release = none) {recipes : List Path}
    (run : (recipes.forM validator.validate).run session = .ok () after) :
    validator.ValidatesAll recipes session after := by
  induction recipes generalizing session with
  | nil => exact forM_nil_eq_ok.mp run
  | cons recipe recipes ih =>
      obtain ⟨between, first, rest⟩ := forM_cons_eq_ok.mp run
      exact ⟨between, validate_eq_ok unfixed first, ih rest⟩

/-- A validation at the bounds that succeeds has tried the recipe at both, and the recipes that are
counted are all those below the folder, each tried in turn. -/
theorem validated_bounds (unfixed : validator.release = none) :
    (∀ recipe session after, (validator.validate recipe).run session = .ok () after →
      validator.Validates recipe session after) ∧
    (∀ root session count after, (validator.validateAll root).run session = .ok count after →
      ∃ recipes, findRecipes session.disk root = .ok recipes ∧ count = recipes.length ∧
        validator.ValidatesAll recipes session after) := by
  refine ⟨fun _ _ _ => validate_eq_ok unfixed, ?_⟩
  intro root session count after run
  have got : (get : Action Session).run session = .ok session session := rfl
  unfold validateAll at run
  rw [run_bind_of_ok got] at run
  obtain ⟨recipes, _, finding, run⟩ := bind_eq_ok.mp run
  obtain ⟨found, rfl⟩ := ofExcept_eq_ok.mp finding
  obtain ⟨⟨⟩, ended, validated, counted⟩ := bind_eq_ok.mp run
  obtain ⟨rfl, rfl⟩ := pure_eq_ok.mp counted
  exact ⟨recipes, found, rfl, validateAll_eq_ok unfixed validated⟩

/-! ## Bounds in and out of order -/

/-- A recipe with the given bounds, next to a wrapper, once the feed was read. -/
def boundedRecipe (bounds : String) : Session where
  disk := {
    root := .folder "recipes"
      (.folder "a"
        (.file "recipe_metadata.toml"
          ⟨("[agpVersion]\n" ++ bounds ++ "[gradleTasks]\ntasks = [\"assembleDebug\"]\n").toUTF8,
            false⟩
          (.file "build.gradle" ⟨"plugins\n".toUTF8, false⟩ .empty)) .empty)
      (.folder "resources"
        (.file "gradlew" ⟨"run".toUTF8, false⟩
          (.folder "gradle"
            (.folder "wrapper" (.file "gradle-wrapper.properties" ⟨"".toUTF8, false⟩ .empty) .empty)
            .empty))
        (.folder "tmp" .empty .empty))
    here := [] }
  published := some
    ((OrderedMap.empty.insert ⟨8, 1⟩ ⟨8, 1, 4, .final, 0⟩).insert ⟨8, 2⟩ ⟨8, 2, 2, .final, 0⟩)

/-- A validator at the bounds for a Gradle that always succeeds and changes nothing. -/
def contented : Validator where
  context := {
    config := { gradleResources := some ⟨"resources"⟩ }
    table := (OrderedMap.empty.insert ⟨8, 1⟩ ⟨"8.0", "1.9.0"⟩).insert ⟨8, 2⟩ ⟨"8.2", "1.9.10"⟩ }
  gradle := fun _ disk => ⟨.exited (some 0), "", "", disk⟩

theorem validated_bounds_twoRuns :
    ∃ after, (contented.validate ⟨"recipes/a"⟩).run
        (boundedRecipe "min = \"8.1.0\"\nmax = \"8.2\"\n") = .ok () after ∧
      contented.Validates ⟨"recipes/a"⟩
        (boundedRecipe "min = \"8.1.0\"\nmax = \"8.2\"\n") after ∧
      after.runs.map (·.tasks) = [["assembleDebug"], ["assembleDebug"]] := by
  obtain ⟨succeeds, tasks⟩ : (contented.validate ⟨"recipes/a"⟩).value?
        (boundedRecipe "min = \"8.1.0\"\nmax = \"8.2\"\n") = some () ∧
      ((contented.validate ⟨"recipes/a"⟩).left
        (boundedRecipe "min = \"8.1.0\"\nmax = \"8.2\"\n")).runs.map (·.tasks) =
          [["assembleDebug"], ["assembleDebug"]] := by decide +kernel
  have run := run_eq_ok succeeds
  exact ⟨_, run, (validated_bounds rfl).1 _ _ _ run, tasks⟩

/-- A recipe whose greatest line comes before its least release passes without a run. -/
theorem validated_bounds_fails :
    ¬ ∀ (validator : Validator) (recipe : Path) (session after : Session), validator.release = none →
      (validator.validate recipe).run session = .ok () after →
      ∀ descriptor loaded, (Descriptor.load recipe validator.context).run session =
        .ok descriptor loaded → descriptor.tasks ≠ [] →
      ∃ run ∈ after.runs.drop session.runs.length,
        run.tasks = descriptor.tasks ∧ run.ending.succeeded = true := by
  intro builds
  have run : (contented.validate ⟨"recipes/a"⟩).run
      (boundedRecipe "min = \"8.2.0\"\nmax = \"8.1\"\n") = .ok () _ :=
    run_eq_ok (by decide +kernel)
  have load : (Descriptor.load ⟨"recipes/a"⟩ contented.context).run
      (boundedRecipe "min = \"8.2.0\"\nmax = \"8.1\"\n") =
        .ok ⟨"a", "a", "a", ⟨8, 2, 0, .final, 0⟩, some ⟨8, 1⟩, ["assembleDebug"], none, []⟩ _ :=
    run_eq_ok (by decide +kernel)
  obtain ⟨built, member, -⟩ := builds _ _ _ _ rfl run _ _ load (by decide)
  have none : ((contented.validate ⟨"recipes/a"⟩).left
      (boundedRecipe "min = \"8.2.0\"\nmax = \"8.1\"\n")).runs = [] := by decide +kernel
  rw [none] at member
  cases member

end Validator
end Cookbook
