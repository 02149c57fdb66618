import Cookbook.Proofs.Validate.Turns

/-!
Validating all recipes against a plugin that is built locally. What is to be run is known from the
recipes' metadata: the tasks of those that support the release. It is run in this order, each recipe in
the project that was just converted for it, up to the first run that fails or cannot be made.
-/

namespace Cookbook

open Action

namespace Validator

variable {validator : Validator} {converter : Converter} {destination recipe root : Path}
  {recipes : List Path} {session after begun later : Session} {target : Target}

/-! ## One recipe after another -/

/-- The turns of recipes, up to the first that fails. -/
def turns (validator : Validator) (converter : Converter) (destination : Path) :
    List Path → Session → List Visit
  | [], _ => []
  | recipe :: recipes, session => ⟨recipe, session⟩ ::
      match (validator.validateInto converter destination recipe).run session with
      | .ok _ between => validator.turns converter destination recipes between
      | .error _ _ => []

theorem turns_of_ok {supported : Bool}
    (run : (validator.validateInto converter destination recipe).run session = .ok supported after) :
    validator.turns converter destination (recipe :: recipes) session =
      ⟨recipe, session⟩ :: validator.turns converter destination recipes after := by
  rw [turns, run]

theorem turns_of_error {failure : Failure}
    (run : (validator.validateInto converter destination recipe).run session = .error failure after) :
    validator.turns converter destination (recipe :: recipes) session = [⟨recipe, session⟩] := by
  rw [turns, run]

theorem countInto_cons (validator : Validator) (converter : Converter) (destination recipe : Path)
    (recipes : List Path) :
    validator.countInto converter destination (recipe :: recipes) =
      (do
        let supported ← validator.validateInto converter destination recipe
        let count ← validator.countInto converter destination recipes
        return if supported then count + 1 else count) := rfl

theorem countInto_remembers (validator : Validator) (converter : Converter) (destination : Path)
    (recipes : List Path) :
    Keeps Remembers (validator.countInto converter destination recipes) := by
  induction recipes with
  | nil => exact keeps_pure 0
  | cons recipe recipes ih =>
      exact keeps_bind (validateInto_remembers validator converter destination recipe)
        fun _ => keeps_bind ih fun _ => keeps_pure _

theorem countInto_runs (validator : Validator) (converter : Converter) (destination : Path)
    (recipes : List Path) (session : Session) :
    ((validator.countInto converter destination recipes).left session).runs =
      session.runs ++ (validator.turns converter destination recipes session).flatMap
        (validator.runsIn converter destination) := by
  induction recipes generalizing session with
  | nil => exact (List.append_nil _).symm
  | cons recipe recipes ih =>
      have turn := validator.validateInto_runs converter destination recipe session
      rw [countInto_cons]
      cases run : (validator.validateInto converter destination recipe).run session with
      | error failure between =>
          rw [left_of_error run] at turn
          rw [left_bind_of_error run, turn, turns_of_error run, List.flatMap_singleton]
      | ok supported between =>
          rw [left_of_ok run] at turn
          rw [left_bind_of_ok run, left_map, ih, turn, turns_of_ok run, List.flatMap_cons,
            List.append_assoc]

section Away

variable (away : validator.Away converter target begun.disk root destination)
  (sourced : ∀ recipe ∈ recipes, Sourced begun.disk root recipe)
  (kept : SparesIn (begun.disk.place root) begun session)
include away sourced kept

theorem turns_sourced : ∀ turn ∈ validator.turns converter destination recipes session,
    Sourced begun.disk root turn.folder ∧ SparesIn (begun.disk.place root) begun turn.session := by
  induction recipes generalizing session with
  | nil => exact List.forall_mem_nil _
  | cons recipe recipes ih =>
      rw [List.forall_mem_cons] at sourced
      obtain ⟨first, others⟩ := sourced
      have keeps := turn_sparesIn away first kept
      cases run : (validator.validateInto converter destination recipe).run session with
      | error failure between =>
          rw [turns_of_error run, List.forall_mem_singleton]
          exact ⟨first, kept⟩
      | ok supported between =>
          rw [turns_of_ok run, List.forall_mem_cons]
          rw [left_of_ok run] at keeps
          exact ⟨⟨first, kept⟩, ih others keeps⟩

theorem countInto_pursues
    (remembers : Remembers ((validator.countInto converter destination recipes).left session) later) :
    Pursues (validator.countInto converter destination recipes) session
      (planned destination (supporting begun.disk later.latest target.release recipes))
      ((validator.turns converter destination recipes session).map (·.folder) = recipes ∧
        ∀ turn ∈ validator.turns converter destination recipes session,
          Able converter destination turn) := by
  induction recipes generalizing session with
  | nil => exact pursues_none rfl (iff_of_true rfl ⟨⟨rfl, List.forall_mem_nil _⟩, rfl⟩)
  | cons recipe recipes ih =>
      rw [List.forall_mem_cons] at sourced
      obtain ⟨first, others⟩ := sourced
      have keeps := turn_sparesIn away first kept
      have begins := turn_pursues away first kept (trans_of Remembers
        (left_bind_keeps fun _ => keeps_bind (countInto_remembers _ _ _ _) fun _ => keeps_pure _)
        remembers)
      rw [supporting_cons, planned_append]
      -- The turn of the first recipe, then those of the others in the session that it leaves.
      have both := pursues_bind begins fun supported between run => by
        rw [left_of_ok run] at keeps
        refine (ih others keeps ?_).map fun count => if supported then count + 1 else count
        rwa [countInto_cons, left_bind_of_ok run, left_map] at remembers
      refine both.congr ?_ ?_
      · intro succeeds
        obtain ⟨⟨able, further⟩, -⟩ := both.succeeds.mp succeeds
        cases run : (validator.validateInto converter destination recipe).run session with
        | error failure between =>
            rw [value?_of_error (run_bind_of_error run)] at succeeds
            cases succeeds
        | ok supported between =>
            obtain ⟨all, each⟩ := further supported between run
            rw [turns_of_ok run, List.map_cons, all, List.forall_mem_cons]
            exact ⟨rfl, able, each⟩
      · rintro ⟨all, each⟩ - -
        cases run : (validator.validateInto converter destination recipe).run session with
        | error failure between =>
            rw [turns_of_error run, List.forall_mem_singleton] at each
            exact ⟨each, fun _ _ other => nomatch other⟩
        | ok supported between =>
            rw [turns_of_ok run, List.map_cons, List.cons_inj_right] at all
            rw [turns_of_ok run, List.forall_mem_cons] at each
            refine ⟨each.1, ?_⟩
            rintro _ _ ⟨⟩
            exact ⟨all, each.2⟩

theorem countInto_eq_ok {count : Nat}
    (run : (validator.countInto converter destination recipes).run session = .ok count after)
    (remembers : Remembers after later) :
    count = (supporting begun.disk later.latest target.release recipes).length := by
  induction recipes generalizing session count with
  | nil => exact (pure_eq_ok.mp run).1.symm
  | cons recipe recipes ih =>
      rw [List.forall_mem_cons] at sourced
      obtain ⟨first, others⟩ := sourced
      rw [countInto_cons] at run
      obtain ⟨supported, between, turn, run⟩ := bind_eq_ok.mp run
      obtain ⟨rest, ended, counting, done⟩ := bind_eq_ok.mp run
      obtain ⟨rfl, rfl⟩ := pure_eq_ok.mp done
      have keeps := turn_sparesIn away first kept
      rw [left_of_ok turn] at keeps
      have onward := (countInto_remembers validator converter destination recipes).ok counting
      have here := turn_supported away first kept turn (trans_of Remembers onward remembers)
      rw [supporting_cons, List.length_append, here, ← ih others keeps counting]
      split <;> omega

end Away

/-! ## Whole validations -/

/-- The converter of a validation that takes everything from local places. -/
def localConverter (validator : Validator) (release : Release) (gradle repository : String) :
    Converter :=
  { mode := .release (.localOnly release gradle repository), context := validator.context,
    overwrite := true }

/-- Validates the recipes below a folder in another one. -/
def validateIn (validator : Validator) (converter : Converter) (root destination : Path) :
    Action Nat := do
  let recipes ← Action.ofExcept (findRecipes (← get).disk root)
  validator.countInto converter destination recipes

theorem validateInternally_eq {gradle repository : String} {release : Release}
    (gradlePath : validator.context.config.gradlePath = some gradle)
    (known : validator.context.config.repository = some repository) (place : Option Path) :
    validator.validateInternally release root place =
      match place with
      | some destination =>
          validator.validateIn (validator.localConverter release gradle repository) root destination
      | none => withScratch
          (validator.validateIn (validator.localConverter release gradle repository) root) := by
  have resolved : Target.resolve release none validator.context =
      .ok (.localOnly release gradle repository) := by
    simp only [Target.resolve, gradlePath, known]
  unfold validateInternally
  rw [gradlePath, resolved]
  simp only [Option.isNone_some, Bool.false_eq_true, if_false]
  rw [Action.ofExcept, pure_bind]
  cases place <;> rfl

theorem validateIn_run (found : findRecipes session.disk root = .ok recipes) :
    (validator.validateIn converter root destination).run session =
      (validator.countInto converter destination recipes).run session := by
  have got : (get : Action Session).run session = .ok session session := rfl
  unfold validateIn
  rw [run_bind_of_ok got]
  exact run_bind_of_ok (ofExcept_eq_ok.mpr ⟨found, rfl⟩)

/-- The session in which the first recipe is converted: the folder for the projects is given or is made,
which may fail. -/
def begin? (place : Option Path) (session : Session) : Option Session :=
  match place with
  | some _ => some session
  | none => session.disk.openScratch.toOption.map fun made => { session with disk := made }

/-- The turns of recipes, if there is a session to begin with. -/
def turnsFrom (validator : Validator) (converter : Converter) (destination : Path)
    (recipes : List Path) (begins : Option Session) : List Visit :=
  (begins.map (validator.turns converter destination recipes)).getD []

/-- That an action validates recipes in turn as far as it gets. It runs what is planned for those that
support the release, each in the project that it was just converted to, and it counts them. -/
structure GoesThrough (validator : Validator) (converter : Converter) (destination : Path)
    (recipes : List Path) (action : Action Nat) (session : Session) (begins : Option Session)
    (compliant : List Descriptor) : Prop where
  pursues : Pursues action session (planned destination compliant)
    (begins.isSome = true ∧
      (validator.turnsFrom converter destination recipes begins).map (·.folder) = recipes ∧
      ∀ turn ∈ validator.turnsFrom converter destination recipes begins,
        Able converter destination turn)
  runs : action.runsOf session =
    (validator.turnsFrom converter destination recipes begins).flatMap
      (validator.runsIn converter destination)
  projects : ∀ turn ∈ validator.turnsFrom converter destination recipes begins,
    validator.FindsProject converter destination turn
  count : ∀ count, action.value? session = some count → count = compliant.length

section Whole

variable {action other : Action Nat} {begins : Option Session} {compliant : List Descriptor}

theorem GoesThrough.of_run
    (goes : validator.GoesThrough converter destination recipes other session begins compliant)
    (same : action.run session = other.run session) :
    validator.GoesThrough converter destination recipes action session begins compliant := by
  have runs : action.runsOf session = other.runsOf session := by
    rw [runsOf, EStateM.left, same, ← EStateM.left, ← runsOf]
  refine ⟨goes.pursues.of_run same rfl, by rw [runs, goes.runs], goes.projects, ?_⟩
  intro count given
  rw [value?, same, ← value?] at given
  exact goes.count count given

theorem GoesThrough.withScratch {action : Path → Action Nat}
    (within : ∀ made, session.disk.openScratch = .ok made →
      validator.GoesThrough converter destination recipes (action session.disk.nextScratch)
        { session with disk := made } (some { session with disk := made }) compliant) :
    validator.GoesThrough converter destination recipes (withScratch action) session
      (begin? none session) compliant := by
  cases opened : session.disk.openScratch with
  | error fault =>
      have none : begin? none session = none := by rw [begin?, opened]; rfl
      have run : (Action.withScratch action).run session = _ := withScratch_of_unopened opened
      have nothing : (Action.withScratch action).runsOf session = [] :=
        runsOf_of_left (by rw [left_of_error run, List.append_nil])
      rw [none]
      refine ⟨pursues_none (by rw [left_of_error run]) ?_, nothing, List.forall_mem_nil _, ?_⟩
      · rw [value?_of_error run]
        exact iff_of_false Bool.false_ne_true fun able => Bool.false_ne_true able.1.1
      · intro count given
        rw [value?_of_error run] at given
        cases given
  | ok made =>
      have some : begin? none session = some { session with disk := made } := by
        rw [begin?, opened]
        rfl
      have goes := within made opened
      have pursues := pursues_withScratch fun made' (opened' : session.disk.openScratch = .ok made') =>
        (within made' opened').pursues
      rw [some]
      refine ⟨?_, by rw [runsOf_withScratch opened, goes.runs], goes.projects, ?_⟩
      · refine pursues.congr ?_ fun able _ _ => ⟨made, opened, able⟩
        intro succeeds
        obtain ⟨made', opened', able⟩ := (pursues.succeeds.mp succeeds).1
        rw [opened] at opened'
        cases opened'
        exact able
      · intro count given
        obtain ⟨made', ended, opened', run, -⟩ := withScratch_eq_ok.mp (run_eq_ok given)
        rw [opened] at opened'
        cases opened'
        exact goes.count count (value?_of_ok run)

theorem countInto_goesThrough (away : validator.Away converter target begun.disk root destination)
    (sourced : ∀ recipe ∈ recipes, Sourced begun.disk root recipe)
    (remembers : Remembers ((validator.countInto converter destination recipes).left begun) later) :
    validator.GoesThrough converter destination recipes
      (validator.countInto converter destination recipes) begun (some begun)
      (supporting begun.disk later.latest target.release recipes) := by
  have kept := refl_of (SparesIn (begun.disk.place root)) begun
  have pursues := countInto_pursues away sourced kept remembers
  refine ⟨?_, runsOf_of_left (validator.countInto_runs converter destination recipes begun), ?_, ?_⟩
  · exact pursues.congr (fun succeeds => ⟨rfl, (pursues.succeeds.mp succeeds).1⟩)
      fun able _ _ => able.2
  · intro turn member
    obtain ⟨source, spared⟩ := turns_sourced away sourced kept turn member
    exact findsProject (spared away.sound).1 source.named
  · intro count given
    have run := run_eq_ok given
    rw [left_of_ok run] at remembers
    exact countInto_eq_ok away sourced kept run remembers

theorem validateIn_goesThrough (begun : Session)
    (away : validator.Away converter target begun.disk root destination)
    (found : findRecipes begun.disk root = .ok recipes)
    (ordinary : ∀ recipe ∈ recipes, ∀ descriptor, begun.disk.Describes recipe descriptor →
      ProperName descriptor.destination)
    (remembers : Remembers ((validator.validateIn converter root destination).left begun) later) :
    validator.GoesThrough converter destination recipes
      (validator.validateIn converter root destination) begun (some begun)
      (supporting begun.disk later.latest target.release recipes) := by
  have same : (validator.validateIn converter root destination).run begun = _ := validateIn_run found
  rw [EStateM.left, same, ← EStateM.left] at remembers
  exact (countInto_goesThrough away (sourced_of_found away.sound found ordinary) remembers).of_run same

end Whole

/-- Validating with what is built locally runs what the metadata of the recipes ask for, as far as it
gets. -/
theorem validateInternally_goesThrough {gradle repository : String} {release : Release}
    {place : Option Path} (gradlePath : validator.context.config.gradlePath = some gradle)
    (known : validator.context.config.repository = some repository) (sound : session.disk.Sound)
    (found : findRecipes session.disk root = .ok recipes)
    (apart : Apart (session.disk.place root)
      (session.disk.place (place.getD session.disk.nextScratch)))
    (ordinary : ∀ recipe ∈ recipes, ∀ descriptor, session.disk.Describes recipe descriptor →
      ProperName descriptor.destination)
    (leaves : Gradle.LeavesFiles validator.gradle (session.disk.place root)) :
    validator.GoesThrough (validator.localConverter release gradle repository)
      (place.getD session.disk.nextScratch) recipes (validator.validateInternally release root place)
      session (begin? place session)
      (supporting session.disk ((validator.validateInternally release root place).left session).latest
        release recipes) := by
  rw [validateInternally_eq gradlePath known]
  cases place with
  | some destination =>
      have away : validator.Away (validator.localConverter release gradle repository)
          (.localOnly release gradle repository) session.disk root destination :=
        ⟨rfl, sound, apart, leaves⟩
      exact validateIn_goesThrough session away found ordinary (refl_of Remembers _)
  | none =>
      refine GoesThrough.withScratch fun made opened => ?_
      have countedSound : session.disk.countScratch.Sound := ⟨sound.root, sound.here⟩
      have becomes := Disk.createFolder_becomes countedSound opened
      have here : made.here = session.disk.here := becomes.here
      have files : made.files = session.disk.files := becomes.files
      have place (p : Path) : made.place p = session.disk.place p := Disk.place_congr here p
      -- The goal is about the disk before the scratch folder was made, which has the same files.
      have compliant (latest : ReleaseLine → Except Failure Release) :
          supporting made latest release recipes = supporting session.disk latest release recipes := by
        have given : made.descriptor? latest = session.disk.descriptor? latest :=
          funext fun recipe => Disk.descriptor?_congr here (by rw [files])
        rw [supporting, supporting, given]
      have foundAgain := findRecipes_openScratch opened apart found
      rw [← place, ← place] at apart
      rw [← place] at leaves
      rw [← compliant]
      have away : validator.Away (validator.localConverter release gradle repository)
          (.localOnly release gradle repository) made root session.disk.nextScratch :=
        ⟨rfl, becomes.sound countedSound, apart, leaves⟩
      refine validateIn_goesThrough { session with disk := made } away foundAgain ?_ ?_
      · intro recipe member descriptor describes
        exact ordinary recipe member descriptor (describes.congr (place recipe).symm (by rw [files]))
      · rw [left_withScratch opened]
        exact remembers_of_published (Session.dropScratch_published _ _)

/-! ## A folder of two recipes -/

/-- The metadata of a recipe from a release on. -/
def localMetadata (least tasks : String) : String :=
  "[agpVersion]\nmin = \"" ++ least ++ "\"\n" ++ tasks

/-- A recipe for later releases and one that is to be built with the given tasks, next to a wrapper. -/
def localTree (tasks : String) : Tree :=
  .folder "r"
    (.folder "a" (.file "recipe_metadata.toml" ⟨(localMetadata "8.2.0" "").toUTF8, false⟩ .empty)
      (.folder "b"
        (.file "recipe_metadata.toml" ⟨(localMetadata "8.1.0" tasks).toUTF8, false⟩ .empty) .empty))
    (.folder "w"
      (.file "gradlew" ⟨.empty, true⟩
        (.folder "gradle"
          (.folder "wrapper" (.file "gradle-wrapper.properties" ⟨.empty, false⟩ .empty) .empty)
          .empty))
      (.folder "tmp" .empty .empty))

def localRecipes (tasks : String) (scratchHome : Path) : Session where
  disk := { root := localTree tasks, here := [], scratchHome }

def buildTasks : String := "[gradleTasks]\ntasks = [\"build\"]\nvalidationTasks = [\"test\"]\n"

/-- The mapping and the Gradle of `contented`, with a plugin that is built locally. -/
def localValidator : Validator :=
  { contented with
    context := { contented.context with
      config := { gradleResources := some ⟨"w"⟩, gradlePath := some "g", repository := some "m" } } }

theorem localValidator_leaves (folder : Location) :
    Gradle.LeavesFiles localValidator.gradle folder :=
  fun _ d sound => ⟨sound, rfl, .refl d⟩

section Local

variable {tasks : String} (scratchHome : Path)

theorem localRecipes_place (p : Path) :
    (localRecipes tasks scratchHome).disk.place p = follow [] p.parts := by
  rw [Disk.place, localRecipes, ite_self]

theorem localRecipes_apart : Apart ((localRecipes tasks scratchHome).disk.place ⟨"r"⟩)
    ((localRecipes tasks scratchHome).disk.place ⟨"o"⟩) := by
  rw [localRecipes_place, localRecipes_place]
  decide

variable (known : tasks = "" ∨ tasks = buildTasks)
include known

theorem localRecipes_sound : (localRecipes tasks scratchHome).disk.Sound := by
  have root : (localTree tasks).Sound := by obtain rfl | rfl := known <;> decide
  exact ⟨root, fun name member => nomatch member⟩

theorem localMetadata_destination {name least : String} {path : Path}
    {lookup : ReleaseLine → Except Failure Release} {descriptor : Descriptor}
    (version : least = "8.1.0" ∨ least = "8.2.0")
    (parsed : Descriptor.parse (localMetadata least tasks) name path lookup = .ok descriptor) :
    descriptor.destination = name := by
  obtain rfl | rfl := known <;> obtain rfl | rfl := version <;> cases parsed <;> rfl

theorem localRecipes_ordinary : ∀ recipe ∈ [(⟨"r/a"⟩ : Path), ⟨"r/b"⟩], ∀ descriptor,
    (localRecipes tasks scratchHome).disk.Describes recipe descriptor →
      ProperName descriptor.destination := by
  intro recipe member descriptor describes
  obtain ⟨data, content, lookup, here, decoded, parsed⟩ := describes
  rw [localRecipes_place] at here
  simp only [List.mem_cons, List.not_mem_nil, or_false] at member
  obtain rfl | rfl := member
  · have place : follow [] (Path.parts ⟨"r/a"⟩) = ["r", "a"] := by decide
    rw [place] at here
    cases here
    rw [fromUTF8?_written] at decoded
    cases decoded
    rw [localMetadata_destination (.inl rfl) (.inr rfl) parsed]
    decide
  · have place : follow [] (Path.parts ⟨"r/b"⟩) = ["r", "b"] := by decide
    rw [place] at here
    cases here
    rw [fromUTF8?_written] at decoded
    cases decoded
    rw [localMetadata_destination known (.inl rfl) parsed]
    decide

end Local

theorem localRecipes_run :
    let validates := localValidator.validateInternally ⟨8, 1, 0, .final, 0⟩ ⟨"r"⟩ (some ⟨"o"⟩)
    let session := localRecipes buildTasks ⟨"/tmp"⟩
    findRecipes session.disk ⟨"r"⟩ = .ok [⟨"r/a"⟩, ⟨"r/b"⟩] ∧ validates.value? session = some 1 ∧
      (validates.runsOf session).map (·.job) = [(⟨"o/b"⟩, ["build"]), (⟨"o/b"⟩, ["test"])] := by
  decide +kernel

theorem validateInternally_goesThrough_localRecipes :
    let validates := localValidator.validateInternally ⟨8, 1, 0, .final, 0⟩ ⟨"r"⟩ (some ⟨"o"⟩)
    let session := localRecipes buildTasks ⟨"/tmp"⟩
    (validates.value? session = some 1 ∧
      (validates.runsOf session).map (·.job) = [(⟨"o/b"⟩, ["build"]), (⟨"o/b"⟩, ["test"])]) ∧
    localValidator.GoesThrough (localValidator.localConverter ⟨8, 1, 0, .final, 0⟩ "g" "m") ⟨"o"⟩
      [⟨"r/a"⟩, ⟨"r/b"⟩] validates session (some session)
      (supporting session.disk (validates.left session).latest ⟨8, 1, 0, .final, 0⟩
        [⟨"r/a"⟩, ⟨"r/b"⟩]) := by
  obtain ⟨found, ran⟩ := localRecipes_run
  have apart : Apart ((localRecipes buildTasks ⟨"/tmp"⟩).disk.place ⟨"r"⟩)
      ((localRecipes buildTasks ⟨"/tmp"⟩).disk.place ((some ⟨"o"⟩ : Option Path).getD
        (localRecipes buildTasks ⟨"/tmp"⟩).disk.nextScratch)) := localRecipes_apart _
  exact ⟨ran, validateInternally_goesThrough rfl rfl (localRecipes_sound _ (.inr rfl)) found apart
    (localRecipes_ordinary _ (.inr rfl)) (localValidator_leaves _)⟩

theorem localRecipes_unscratched :
    let converter := localValidator.localConverter ⟨8, 1, 0, .final, 0⟩ "g" "m"
    let validates := localValidator.validateInternally ⟨8, 1, 0, .final, 0⟩ ⟨"r"⟩ (some ⟨"o"⟩)
    let session := localRecipes "" ⟨"/none"⟩
    let turns := localValidator.turns converter ⟨"o"⟩ [⟨"r/a"⟩, ⟨"r/b"⟩] session
    findRecipes session.disk ⟨"r"⟩ = .ok [⟨"r/a"⟩, ⟨"r/b"⟩] ∧ validates.value? session = none ∧
      turns.map (·.folder) = [⟨"r/a"⟩, ⟨"r/b"⟩] ∧
      (∀ turn ∈ turns, ((converter.convert turn.folder ⟨"o"⟩).value? turn.session).isSome = true) ∧
      validates.runsOf session = [] ∧
      planned ⟨"o"⟩ (supporting session.disk (validates.left session).latest ⟨8, 1, 0, .final, 0⟩
        [⟨"r/a"⟩, ⟨"r/b"⟩]) = [] := by
  decide +kernel

/-- A scratch folder is asked for before it is known that there are no tasks. A recipe without any fails
where it cannot be made. -/
theorem validateInternally_unscratched : ¬ ∀ (validator : Validator) (gradle repository : String)
    (release : Release) (root destination : Path) (recipes : List Path) (session : Session),
    validator.context.config.gradlePath = some gradle →
    validator.context.config.repository = some repository → session.disk.Sound →
    findRecipes session.disk root = .ok recipes →
    Apart (session.disk.place root) (session.disk.place destination) →
    (∀ recipe ∈ recipes, ∀ descriptor, session.disk.Describes recipe descriptor →
      ProperName descriptor.destination) →
    Gradle.LeavesFiles validator.gradle (session.disk.place root) →
    let converter := validator.localConverter release gradle repository
    let validates := validator.validateInternally release root (some destination)
    let turns := validator.turns converter destination recipes session
    (validates.value? session).isSome = true ↔
      (turns.map (·.folder) = recipes ∧
        ∀ turn ∈ turns, ((converter.convert turn.folder destination).value? turn.session).isSome = true) ∧
      (validates.runsOf session).map (·.job) =
        planned destination
          (supporting session.disk (validates.left session).latest release recipes) ∧
      ∀ run ∈ validates.runsOf session, run.ending.succeeded = true := by
  intro succeeds
  obtain ⟨found, fails, all, each, none, nothing⟩ := localRecipes_unscratched
  have given := (succeeds localValidator "g" "m" ⟨8, 1, 0, .final, 0⟩ ⟨"r"⟩ ⟨"o"⟩ _ _ rfl rfl
    (localRecipes_sound _ (.inl rfl)) found (localRecipes_apart _) (localRecipes_ordinary _ (.inl rfl))
    (localValidator_leaves _)).mpr
  rw [fails, none, nothing] at given
  cases given ⟨⟨all, each⟩, rfl, List.forall_mem_nil _⟩

end Validator
end Cookbook
