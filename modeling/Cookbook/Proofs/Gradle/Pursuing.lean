import Cookbook.Proofs.Convert.Sources
import Cookbook.Proofs.Gradle.Executing
import Cookbook.Proofs.Recipe.Reloading
import Cookbook.Validate.Bounds

/-!
Actions that pursue a list of jobs: they run the tasks of one after another, up to the first that fails or
cannot be run. Building a converted recipe pursues its tasks and then its validation tasks, and the first
of them finds the project as it was converted.
-/

namespace Cookbook

open Action

/-- Tasks to be run in a project. -/
abbrev Gradle.Job := Path × List String

def Gradle.Run.job (run : Gradle.Run) : Gradle.Job := (run.invocation.project, run.tasks)

namespace Action

variable {α β : Type} {action : Action α} {session after : Session} {jobs jobs' : List Gradle.Job}
  {able able' : Prop} {runs : List Gradle.Run}

/-- The runs that an action makes. -/
def runsOf (action : Action α) (session : Session) : List Gradle.Run :=
  (action.left session).runs.drop session.runs.length

theorem runsOf_of_left (left : (action.left session).runs = session.runs ++ runs) :
    action.runsOf session = runs := by
  rw [runsOf, left, List.drop_left]

/-- That an action makes runs for the jobs in turn and none after one that failed, and that it succeeds
exactly if it is able to and has made all of them with success. -/
structure Pursues (action : Action α) (session : Session) (jobs : List Gradle.Job) (able : Prop) :
    Prop where
  left : (action.left session).runs = session.runs ++ action.runsOf session
  starts : (action.runsOf session).map (·.job) <+: jobs
  early : ∀ run ∈ (action.runsOf session).dropLast, run.ending.succeeded = true
  succeeds : (action.value? session).isSome = true ↔ able ∧
    (action.runsOf session).map (·.job) = jobs ∧ ∀ run ∈ action.runsOf session,
      run.ending.succeeded = true

theorem value?_of_ok {value : α} (run : action.run session = .ok value after) :
    action.value? session = some value := by
  rw [value?, run]

theorem value?_of_error {failure : Failure} (run : action.run session = .error failure after) :
    action.value? session = none := by
  rw [value?, run]

theorem Pursues.congr (pursues : Pursues action session jobs able)
    (toward : (action.value? session).isSome = true → able')
    (back : able' → (action.runsOf session).map (·.job) = jobs →
      (∀ run ∈ action.runsOf session, run.ending.succeeded = true) → able) :
    Pursues action session jobs able' where
  left := pursues.left
  starts := pursues.starts
  early := pursues.early
  succeeds := by
    constructor
    · exact fun succeeds => ⟨toward succeeds, (pursues.succeeds.mp succeeds).2⟩
    · rintro ⟨able', all, each⟩
      exact pursues.succeeds.mpr ⟨back able' all each, all, each⟩

/-- What an action pursues from where another one has got without a run, it pursues in its place. -/
theorem Pursues.of_run {other : Action α} (pursues : Pursues other after jobs able)
    (same : action.run session = other.run after) (runs : after.runs = session.runs) :
    Pursues action session jobs able := by
  have left : (action.left session).runs = session.runs ++ other.runsOf after := by
    rw [EStateM.left, same, ← EStateM.left, pursues.left, runs]
  have made := runsOf_of_left left
  have value : action.value? session = other.value? after := by rw [value?, same, value?]
  refine ⟨by rw [left, made], ?_, ?_, ?_⟩
  · rw [made]
    exact pursues.starts
  · rw [made]
    exact pursues.early
  · rw [made, value]
    exact pursues.succeeds

theorem pursues_none (same : (action.left session).runs = session.runs)
    (succeeds : (action.value? session).isSome = true ↔ able ∧ jobs = []) :
    Pursues action session jobs able := by
  have none : action.runsOf session = [] := runsOf_of_left (by rw [same, List.append_nil])
  refine ⟨by rw [none, same, List.append_nil], ?_, ?_, ?_⟩
  · rw [none]
    exact List.nil_prefix
  · rw [none]
    exact List.forall_mem_nil _
  · rw [none, succeeds, List.map_nil, eq_comm (a := jobs)]
    exact and_congr_right fun _ => (and_iff_left (List.forall_mem_nil _)).symm

theorem runsOf_bind_of_error {next : α → Action β} {failure : Failure}
    (run : action.run session = .error failure after) :
    (action >>= next).runsOf session = action.runsOf session := by
  rw [runsOf, left_bind_of_error run, runsOf, left_of_error run]

theorem runsOf_bind_of_ok {next : α → Action β} {value : α}
    (run : action.run session = .ok value after)
    (first : (action.left session).runs = session.runs ++ action.runsOf session)
    (second : ((next value).left after).runs = after.runs ++ (next value).runsOf after) :
    (action >>= next).runsOf session = action.runsOf session ++ (next value).runsOf after := by
  apply runsOf_of_left
  rw [left_of_ok run] at first
  rw [left_bind_of_ok run, second, first, List.append_assoc]

theorem pursues_bind_of_error {next : α → Action β} {failure : Failure} {between : Session}
    {onward : Prop} (begins : Pursues action session jobs able)
    (run : action.run session = .error failure between) :
    Pursues (action >>= next) session (jobs ++ jobs') (able ∧ onward) := by
  have same : (action >>= next).runsOf session = action.runsOf session := runsOf_bind_of_error run
  refine ⟨?_, ?_, ?_, ?_⟩
  · rw [same, left_bind_of_error run, ← left_of_error run]
    exact begins.left
  · rw [same]
    exact begins.starts.trans (List.prefix_append _ _)
  · rw [same]
    exact begins.early
  · rw [same, value?_of_error (run_bind_of_error run)]
    constructor
    · exact fun succeeds => nomatch succeeds
    rintro ⟨⟨able, -⟩, all, each⟩
    -- What was run is among the first jobs, so there are no others.
    have none : jobs' = [] := by
      have short := begins.starts.length_le
      rw [all, List.length_append] at short
      exact List.eq_nil_of_length_eq_zero (by omega)
    rw [none, List.append_nil] at all
    have succeeds := begins.succeeds.mpr ⟨able, all, each⟩
    rwa [value?_of_error run] at succeeds

theorem pursues_bind_of_ok {next : α → Action β} {able' : Prop} {value : α} {between : Session}
    (begins : Pursues action session jobs able) (run : action.run session = .ok value between)
    (further : Pursues (next value) between jobs' able') :
    Pursues (action >>= next) session (jobs ++ jobs') (able ∧ able') := by
  have both := runsOf_bind_of_ok run begins.left further.left
  obtain ⟨able, all, each⟩ := begins.succeeds.mp (by rw [value?_of_ok run]; rfl)
  refine ⟨?_, ?_, ?_, ?_⟩
  · rw [both, left_bind_of_ok run, further.left, ← List.append_assoc, ← begins.left,
      left_of_ok run]
  · rw [both, List.map_append, all, List.prefix_append_right_inj]
    exact further.starts
  · rw [both]
    intro made member
    obtain none | some := eq_or_ne ((next value).runsOf between) []
    · rw [none, List.append_nil] at member
      exact each made ((List.dropLast_sublist _).subset member)
    · rw [List.dropLast_append_of_ne_nil some] at member
      obtain member | member := List.mem_append.mp member
      · exact each made member
      · exact further.early made member
  · have same : (action >>= next).value? session = (next value).value? between := by
      rw [value?, run_bind_of_ok run, value?]
    rw [both, same, further.succeeds, List.map_append, all, List.append_cancel_left_eq,
      List.forall_mem_append]
    constructor
    · rintro ⟨able', rest, eachRest⟩
      exact ⟨⟨able, able'⟩, rest, each, eachRest⟩
    · rintro ⟨⟨-, able'⟩, rest, -, eachRest⟩
      exact ⟨able', rest, eachRest⟩

/-- Of two actions in turn, the second pursues its jobs once the first has pursued all of its own. -/
theorem pursues_bind {next : α → Action β} {able' : α → Session → Prop}
    (begins : Pursues action session jobs able)
    (goes : ∀ value between, action.run session = .ok value between →
      Pursues (next value) between jobs' (able' value between)) :
    Pursues (action >>= next) session (jobs ++ jobs')
      (able ∧ ∀ value between, action.run session = .ok value between → able' value between) := by
  cases run : action.run session with
  | error failure between => exact pursues_bind_of_error begins run
  | ok value between =>
      have both := pursues_bind_of_ok begins run (goes value between run)
      refine both.congr (fun succeeds => ?_) fun able _ _ => ⟨able.1, able.2 value between rfl⟩
      obtain ⟨⟨able, able'⟩, -⟩ := both.succeeds.mp succeeds
      refine ⟨able, ?_⟩
      rintro _ _ ⟨⟩
      exact able'

theorem runsOf_map (f : α → β) :
    (action >>= fun value => pure (f value)).runsOf session = action.runsOf session := by
  rw [runsOf, left_map, runsOf]

theorem Pursues.map (pursues : Pursues action session jobs able) (f : α → β) :
    Pursues (action >>= fun value => pure (f value)) session jobs able := by
  have value : ((action >>= fun value => pure (f value)).value? session).isSome =
      (action.value? session).isSome := by
    cases run : action.run session with
    | error failure after =>
        rw [value?_of_error (run_bind_of_error run), value?_of_error run]
        rfl
    | ok result after =>
        rw [value?_of_ok run, value?, run_bind_of_ok run]
        rfl
  refine ⟨?_, ?_, ?_, ?_⟩
  · rw [left_map, runsOf_map]
    exact pursues.left
  · rw [runsOf_map]
    exact pursues.starts
  · rw [runsOf_map]
    exact pursues.early
  · rw [value, runsOf_map]
    exact pursues.succeeds

theorem runsOf_withScratch {action : Path → Action α} {made : Disk}
    (opened : session.disk.openScratch = .ok made) :
    (withScratch action).runsOf session =
      (action session.disk.nextScratch).runsOf { session with disk := made } := by
  rw [runsOf, left_withScratch opened, Session.dropScratch_runs]
  rfl

theorem pursues_withScratch {action : Path → Action α} {able : Disk → Prop}
    (within : ∀ made, session.disk.openScratch = .ok made →
      Pursues (action session.disk.nextScratch) { session with disk := made } jobs (able made)) :
    Pursues (withScratch action) session jobs
      (∃ made, session.disk.openScratch = .ok made ∧ able made) := by
  cases opened : session.disk.openScratch with
  | error fault =>
      have run : (withScratch action).run session = _ := withScratch_of_unopened opened
      refine pursues_none ?_ ?_
      · rw [left_of_error run]
      · rw [value?_of_error run]
        simp
  | ok made =>
      have run : (withScratch action).run session = _ := withScratch_of_opened opened
      have pursues := within made opened
      have same : (withScratch action).runsOf session = _ := runsOf_withScratch opened
      have left : (withScratch action).left session = _ := left_withScratch opened
      have value : (withScratch action).value? session =
          (action session.disk.nextScratch).value? { session with disk := made } := by
        rw [value?, run, value?]
        cases (action session.disk.nextScratch).run { session with disk := made } <;> rfl
      refine ⟨?_, ?_, ?_, ?_⟩
      · rw [left, Session.dropScratch_runs, same]
        exact pursues.left
      · rw [same]
        exact pursues.starts
      · rw [same]
        exact pursues.early
      · rw [value, same, pursues.succeeds]
        simp

end Action

namespace Gradle.Executor

variable {executor : Executor} {tasks : List String} {session after : Session}

/-! ## Carrying tasks out -/

/-- What carrying tasks out is to run: nothing if there are no tasks. -/
def jobs (executor : Executor) (tasks : List String) : List Job :=
  ([tasks].filter (!·.isEmpty)).map (executor.project, ·)

theorem jobs_some (executor : Executor) (some : tasks ≠ []) :
    executor.jobs tasks = [(executor.project, tasks)] := by
  simp [jobs, some]

theorem perform_left (executor : Executor) (tasks : List String) (session : Session) :
    ((executor.perform tasks).left session).disk = (executor.report tasks session).disk ∧
      ((executor.perform tasks).left session).published = session.published ∧
      ((executor.perform tasks).left session).runs =
        session.runs ++ [executor.noted tasks session] := by
  obtain ⟨ran, run, disk, published, runs⟩ := executor.run_run tasks session
  unfold perform
  rw [left_bind_of_ok run]
  split
  · exact ⟨disk, published, runs⟩
  · exact ⟨disk, published, runs⟩

theorem perform_pursues (executor : Executor) (tasks : List String) (session : Session) :
    Pursues (executor.perform tasks) session [(executor.project, tasks)] True := by
  obtain ⟨-, -, left⟩ := executor.perform_left tasks session
  have made := runsOf_of_left left
  have job : (executor.noted tasks session).job = (executor.project, tasks) := rfl
  refine ⟨by rw [left, made], ?_, ?_, ?_⟩
  · rw [made]
    exact List.prefix_refl [(executor.project, tasks)]
  · rw [made]
    exact List.forall_mem_nil _
  · obtain ⟨ran, run, -⟩ := executor.run_run tasks session
    rw [made, List.map_singleton, job, List.forall_mem_singleton, true_and, eq_self, true_and]
    show _ ↔ (executor.report tasks session).ending.succeeded = true
    unfold perform
    rw [value?, run_bind_of_ok run, ← executor.mishap?_eq_none]
    cases executor.mishap? tasks (executor.report tasks session).ending with
    | some mishap => exact iff_of_false Bool.false_ne_true (Option.some_ne_none mishap)
    | none => exact iff_of_true rfl rfl

theorem execute_cases (executor : Executor) (some : tasks ≠ []) (session : Session) :
    (∃ failure after, (executor.execute tasks).run session = .error failure after ∧
      after.runs = session.runs) ∨
    ∃ begun, executor.makeHomes.run session = .ok () begun ∧
      (executor.execute tasks).run session = (executor.perform tasks).run begun := by
  have asked : (isFile executor.script).run session =
      .ok (session.disk.isFile executor.script) session := rfl
  rw [execute_some some, run_bind_of_ok asked]
  cases session.disk.isFile executor.script with
  | false => exact .inl ⟨_, _, rfl, rfl⟩
  | true =>
      have touches := executor.makeHomes_onDisk session
      cases making : executor.makeHomes.run session with
      | error failure after =>
          rw [left_of_error making] at touches
          exact .inl ⟨failure, after, run_bind_of_error making, touches.runs⟩
      | ok result begun => exact .inr ⟨begun, rfl, run_bind_of_ok making⟩

theorem execute_pursues (executor : Executor) (tasks : List String) (session : Session) :
    Pursues (executor.execute tasks) session (executor.jobs tasks) True := by
  by_cases none : tasks = []
  · subst none
    exact pursues_none rfl (by simp [jobs, execute_none, value?])
  rw [executor.jobs_some none]
  obtain ⟨failure, after, run, same⟩ | ⟨begun, making, run⟩ := executor.execute_cases none session
  · refine pursues_none ?_ ?_
    · rw [left_of_error run, same]
    · rw [value?_of_error run]
      simp
  · exact (executor.perform_pursues tasks begun).of_run run (executor.makeHomes_onDisk.ok making).runs

theorem executeBoth_pursues (executor : Executor) (tasks others : List String) (session : Session) :
    Pursues (do
        executor.execute tasks
        executor.execute others) session (executor.jobs tasks ++ executor.jobs others) True := by
  refine (pursues_bind (executor.execute_pursues tasks session) fun _ between _ =>
    executor.execute_pursues others between).congr ?_ ?_
  · exact fun _ => trivial
  · exact fun _ _ _ => ⟨trivial, fun _ _ _ => trivial⟩

/-! ## What a run finds -/

/-- That a session has gone on with more folders, but the same files. -/
def Furnished (session after : Session) : Prop :=
  session.disk.Sound → session.disk.Becomes after.disk session.disk.files ∧
    session.disk.KeepsFolders after.disk

instance : IsPreorder Session Furnished where
  refl _ sound := ⟨.refl sound, .refl _⟩
  trans _ _ _ first second sound := by
    obtain ⟨becomes, keeps⟩ := first sound
    obtain ⟨becomes', keeps'⟩ := second (becomes.sound sound)
    rw [becomes.files] at becomes'
    exact ⟨becomes.trans becomes', keeps.trans keeps'⟩

theorem makeHomes_furnished (executor : Executor) : Keeps Furnished executor.makeHomes := by
  have created (path : Path) : Keeps Furnished (createFolders path) :=
    keeps_createFolders fun session sound =>
      ⟨Disk.createFolders_becomes sound path, Disk.createFolders_keepsFolders _ path⟩
  unfold makeHomes
  split
  · exact keeps_bind (created _) fun _ => keeps_bind (created _) fun _ => created _
  · exact keeps_pure ()

theorem execute_content (sound : session.disk.Sound)
    (folder : session.disk.isFolder executor.project = true) :
    ∀ run ∈ runsOf (executor.execute tasks) session, ∀ rest, run.content.fileAt? rest =
      session.disk.files (session.disk.place executor.project ++ rest) := by
  by_cases none : tasks = []
  · subst none
    have made : runsOf (executor.execute []) session = [] := runsOf_of_left (List.append_nil _).symm
    rw [made]
    exact List.forall_mem_nil _
  obtain ⟨failure, after, run, same⟩ | ⟨begun, making, run⟩ := executor.execute_cases none session
  · have made : runsOf (executor.execute tasks) session = [] :=
      runsOf_of_left (by rw [left_of_error run, same, List.append_nil])
    rw [made]
    exact List.forall_mem_nil _
  · obtain ⟨-, -, runs⟩ := executor.perform_left tasks begun
    have made : runsOf (executor.execute tasks) session = [executor.noted tasks begun] := by
      apply runsOf_of_left
      rw [EStateM.left, run, ← EStateM.left, runs, (executor.makeHomes_onDisk.ok making).runs]
    obtain ⟨becomes, keeps⟩ := executor.makeHomes_furnished.ok making sound
    obtain ⟨content, list⟩ := Disk.list_of_isFolder (Disk.isFolder_mono becomes.same keeps folder)
    rw [made, List.forall_mem_singleton]
    intro rest
    rw [← becomes.files, ← becomes.place, Disk.files, Tree.fileAt?_append (Disk.list_eq_ok list), noted,
      list]
    rfl

/-! ## What runs keep -/

theorem execute_keeps {relation : Session → Session → Prop} [IsPreorder Session relation]
    (homes : Keeps relation executor.makeHomes)
    (performs : Keeps relation (executor.perform tasks)) : Keeps relation (executor.execute tasks) := by
  by_cases none : tasks = []
  · subst none
    exact keeps_pure ()
  · rw [execute_some none]
    exact keeps_throwUnless (keeps_isFile _) (keeps_bind homes fun _ => performs)

theorem execute_remembers (executor : Executor) (tasks : List String) :
    Keeps Remembers (executor.execute tasks) := by
  refine execute_keeps ?_ ?_
  · exact fun session => remembers_of_published (executor.makeHomes_onDisk session).published
  · exact fun session => remembers_of_published (executor.perform_left tasks session).2.1

end Gradle.Executor

/-! ## Files that stay -/

/-- That a session has gone on without changing a file in a folder. -/
def SparesIn (folder : Location) (session after : Session) : Prop :=
  session.disk.Sound → after.disk.Sound ∧ after.disk.here = session.disk.here ∧
    session.disk.Spares folder after.disk

instance (folder : Location) : IsPreorder Session (SparesIn folder) where
  refl _ sound := ⟨sound, rfl, .refl _⟩
  trans _ _ _ first second sound := by
    obtain ⟨between, here, spares⟩ := first sound
    obtain ⟨after, here', spares'⟩ := second between
    exact ⟨after, here'.trans here, spares.trans spares'⟩

theorem sparesIn_of_becomes {folder : Location} {session after : Session}
    (becomes : session.disk.Becomes after.disk session.disk.files) :
    SparesIn folder session after :=
  fun sound => ⟨becomes.sound sound, becomes.here, Disk.spares_of_files becomes.files⟩

/-- That Gradle, whatever it is asked for, changes no file in a folder. -/
def Gradle.LeavesFiles (behaviour : Gradle.Behaviour) (folder : Location) : Prop :=
  ∀ invocation d, d.Sound → (behaviour invocation d).disk.Sound ∧
    (behaviour invocation d).disk.here = d.here ∧ d.Spares folder (behaviour invocation d).disk

theorem Gradle.Executor.execute_sparesIn {executor : Gradle.Executor} {folder : Location}
    (leaves : Gradle.LeavesFiles executor.behaviour folder) (tasks : List String) :
    Keeps (SparesIn folder) (executor.execute tasks) := by
  refine execute_keeps ?_ ?_
  · intro session sound
    exact sparesIn_of_becomes (executor.makeHomes_furnished session sound).1 sound
  · intro session sound
    rw [(executor.perform_left tasks session).1]
    exact leaves _ _ sound

theorem Action.withScratch_remembers {α : Type} {action : Path → Action α}
    (within : ∀ scratch, Keeps Remembers (action scratch)) : Keeps Remembers (withScratch action) := by
  intro session
  cases opened : session.disk.openScratch with
  | error fault =>
      rw [left_of_error (withScratch_of_unopened opened)]
      exact remembers_of_published rfl
  | ok made =>
      rw [left_withScratch opened]
      exact trans_of Remembers (within _ { session with disk := made })
        (remembers_of_published (Session.dropScratch_published _ _))

theorem Action.withScratch_sparesIn {α : Type} {folder : Location} {action : Path → Action α}
    (within : ∀ scratch, Keeps (SparesIn folder) (action scratch)) :
    Keeps (SparesIn folder) (withScratch action) := by
  intro session sound
  have countedSound : session.disk.countScratch.Sound := ⟨sound.root, sound.here⟩
  cases opened : session.disk.openScratch with
  | error fault =>
      rw [left_of_error (withScratch_of_unopened opened)]
      exact ⟨countedSound, rfl, Disk.spares_of_files rfl⟩
  | ok made =>
      have becomes := Disk.createFolder_becomes countedSound opened
      obtain ⟨endedSound, here, spares⟩ := within session.disk.nextScratch
        { session with disk := made } (becomes.sound countedSound)
      rw [left_withScratch opened]
      generalize (action session.disk.nextScratch).left { session with disk := made } = ended at *
      have kept : session.disk.Spares folder ended.disk :=
        (Disk.spares_of_files becomes.files).trans spares
      have here' : ended.disk.here = session.disk.here := here.trans becomes.here
      unfold Session.dropScratch
      split
      · next disk removed =>
          have without := Disk.remove_becomes endedSound removed
          refine ⟨without.sound endedSound, without.here.trans here', ?_⟩
          intro place below there
          -- The scratch folder was new, so it holds no file that was there before.
          have outside : ¬ ended.disk.place session.disk.nextScratch <+: place := by
            intro inside
            have before : session.disk.countScratch.files place ≠ none := there
            have held := Disk.holds_of_files before inside
            rw [show ended.disk.place session.disk.nextScratch =
              session.disk.countScratch.place session.disk.nextScratch from
                Disk.place_congr here' _] at held
            exact Disk.createFolder_ne_ok held opened
          rw [without.files]
          exact (if_neg outside).trans (kept place below there)
      · exact ⟨endedSound, here', kept⟩

end Cookbook
