import Cookbook.Gradle.Executor
import Cookbook.Proofs.Scratch

/-!
Runs of Gradle: each is noted in the session, and tasks that were carried out were run with success.
-/

namespace Cookbook

open Action

namespace Gradle.Executor

variable {executor : Executor} {tasks : List String} {session after : Session}

/-- What Gradle reports of the tasks in a session. -/
def report (executor : Executor) (tasks : List String) (session : Session) : Report :=
  executor.behaviour (executor.invocation tasks) session.disk

/-- How a run of the tasks in a session is noted. -/
def noted (executor : Executor) (tasks : List String) (session : Session) : Run where
  invocation := executor.invocation tasks
  tasks
  content := (session.disk.list executor.project).toOption.getD .empty
  ending := (executor.report tasks session).ending

theorem run_run (executor : Executor) (tasks : List String) (session : Session) :
    ∃ after, (executor.run tasks).run session = .ok (executor.report tasks session).ending after ∧
      after.disk = (executor.report tasks session).disk ∧
      after.published = session.published ∧
      after.runs = session.runs ++ [executor.noted tasks session] := by
  have got : (get : Action Session).run session = .ok session session := rfl
  unfold Executor.run
  rw [run_bind_of_ok got]
  by_cases onCi : executor.context.config.onCi = true
  · simp only [onCi, if_true]
    unfold noted report
    cases ended : (executor.behaviour (executor.invocation tasks) session.disk).ending with
    | notStarted fault => exact ⟨_, rfl, rfl, rfl, rfl⟩
    | timedOut => exact ⟨_, rfl, rfl, rfl, rfl⟩
    | exited code =>
        by_cases succeeded : code = some 0
        · simp only [succeeded, ne_eq, not_true_eq_false, if_false]
          exact ⟨_, rfl, rfl, rfl, rfl⟩
        · simp only [succeeded, ne_eq, not_false_eq_true, if_true]
          exact ⟨_, rfl, rfl, rfl, rfl⟩
  · simp only [onCi]
    exact ⟨_, rfl, rfl, rfl, rfl⟩

theorem tasks_suffix (executor : Executor) (tasks : List String) :
    tasks <:+ executor.arguments tasks := by
  unfold arguments
  exact List.suffix_append _ _

theorem mishap?_eq_none {ending : Ending} :
    executor.mishap? tasks ending = none ↔ ending.succeeded = true := by
  cases ending with
  | notStarted fault => simp [mishap?, Ending.succeeded]
  | timedOut => simp [mishap?, Ending.succeeded]
  | exited code => simp [mishap?, Ending.succeeded]

/-! ## Carrying tasks out -/

/-- Makes the folders in which runs on CI are kept apart. -/
def makeHomes (executor : Executor) : Action Unit :=
  if executor.context.config.onCi then do
    createFolders executor.userHome
    createFolders executor.androidUserHome
    createFolders executor.localRepository
  else pure ()

/-- Runs the tasks and fails if they do. -/
def perform (executor : Executor) (tasks : List String) : Action Unit := do
  match executor.mishap? tasks (← executor.run tasks) with
  | some mishap => throw (.taskExecution mishap)
  | none => return

theorem execute_none (executor : Executor) : executor.execute [] = pure () := rfl

theorem execute_some (some : tasks ≠ []) :
    executor.execute tasks = (do
      if !(← isFile executor.script) then throw (.missingFile executor.script)
      executor.makeHomes
      executor.perform tasks) := by
  have nonempty : tasks.isEmpty = false := by simpa using some
  unfold execute makeHomes
  simp only [nonempty, Bool.false_eq_true, if_false]
  congr 1
  funext found
  split
  · rfl
  · split
    · simp only [bind_assoc]
      rfl
    · rfl

theorem makeHomes_onDisk (executor : Executor) : Keeps OnDisk executor.makeHomes := by
  unfold makeHomes
  split
  · exact keeps_bind (createFolders_onDisk _) fun _ =>
      keeps_bind (createFolders_onDisk _) fun _ => createFolders_onDisk _
  · exact keeps_pure ()

theorem perform_eq_ok (run : (executor.perform tasks).run session = .ok () after) :
    after.disk = (executor.report tasks session).disk ∧
      after.published = session.published ∧
      after.runs = session.runs ++ [executor.noted tasks session] ∧
      (executor.report tasks session).ending.succeeded = true := by
  obtain ⟨ran, ending, disk, published, runs⟩ := executor.run_run tasks session
  unfold perform at run
  rw [run_bind_of_ok ending] at run
  split at run
  · exact absurd run throw_ne_ok
  · next none =>
      obtain ⟨-, rfl⟩ := pure_eq_ok.mp run
      exact ⟨disk, published, runs, mishap?_eq_none.mp none⟩

theorem execute_eq_ok (run : (executor.execute tasks).run session = .ok () after) :
    tasks = [] ∧ session = after ∨ tasks ≠ [] ∧ ∃ begun, OnDisk session begun ∧
      after.published = begun.published ∧ after.runs = begun.runs ++ [executor.noted tasks begun] ∧
      (executor.noted tasks begun).ending.succeeded = true := by
  by_cases none : tasks = []
  · subst none
    rw [execute_none] at run
    exact .inl ⟨rfl, (pure_eq_ok.mp run).2⟩
  · rw [execute_some none] at run
    obtain ⟨checked, found, run⟩ := throwUnless_eq_ok.mp run
    obtain ⟨-, rfl⟩ := isFile_eq_ok.mp found
    obtain ⟨⟨⟩, begun, made, performed⟩ := bind_eq_ok.mp run
    obtain ⟨-, published, runs, succeeded⟩ := perform_eq_ok performed
    exact .inr ⟨none, begun, executor.makeHomes_onDisk.ok made, published, runs, succeeded⟩

end Gradle.Executor
end Cookbook
