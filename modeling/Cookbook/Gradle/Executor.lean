import Cookbook.Context
import Cookbook.Session

/-!
Running Gradle tasks in a project through its wrapper script. On CI a run is kept apart from others:
it works offline, in folders of its own, and what it prints is only shown if it fails.
-/

namespace Cookbook.Gradle

structure Executor where
  project : Path
  context : Context
  behaviour : Behaviour
  /-- A folder for the runs of this executor alone. -/
  scratch : Path

namespace Executor

def script (executor : Executor) : Path := executor.project.joinName "gradlew"

def userHome (executor : Executor) : Path := executor.scratch.joinName "gradle_user_home"

def androidUserHome (executor : Executor) : Path := executor.scratch.joinName "android_user_home"

def localRepository (executor : Executor) : Path := executor.scratch.joinName "local_maven_repo"

def given {α β : Type} (value : Option α) (f : α → β) : List β := (value.map f).toList

def arguments (executor : Executor) (tasks : List String) : List String :=
  let config := executor.context.config
  given config.repository ("-PinjectedMavenRepo=" ++ ·) ++
  given config.javaHome (fun home => "-Porg.gradle.java.installations.paths=" ++ home.text) ++
  (if config.onCi then
    ["--info", "--stacktrace", "--offline",
      "-Dmaven.repo.local=" ++ executor.localRepository.text]
  else []) ++
  tasks

def environment (executor : Executor) : List (String × String) :=
  let config := executor.context.config
  given config.javaHome (fun home => ("JAVA_HOME", home.text)) ++
  given config.androidHome (fun home => ("ANDROID_HOME", home.text)) ++
  (if config.onCi then
    [("GRADLE_USER_HOME", executor.userHome.text),
      ("ANDROID_USER_HOME", executor.androidUserHome.text)]
  else [])

def invocation (executor : Executor) (tasks : List String) : Invocation where
  project := executor.project
  arguments := executor.arguments tasks
  environment := executor.environment
  timeout := executor.context.config.timeout

/-- What is shown of a run on CI that failed. -/
def dump (report : Report) : String :=
  "=================== Stderr ===================\n" ++ report.complained ++
  "\n=================== Stdout ===================\n" ++ report.printed ++
  "\n=============== End last build ===============\n"

/-- Runs Gradle and shows what it prints. -/
def run (executor : Executor) (tasks : List String) : Action Ending := do
  let before := (← get).disk
  let invocation := executor.invocation tasks
  let report := executor.behaviour invocation before
  let content := (before.list executor.project).toOption.getD .empty
  modify fun session => { session with
    disk := report.disk
    runs := session.runs ++ [{ invocation, tasks, content, ending := report.ending }] }
  if executor.context.config.onCi then
    if let .exited code := report.ending then
      if code ≠ some 0 then Action.complain (dump report)
  else
    Action.print report.printed
    Action.complain report.complained
  return report.ending

def mishap? (executor : Executor) (tasks : List String) : Ending → Option Mishap
  | .notStarted fault => some (.notStarted fault)
  | .timedOut =>
      some (.timedOut (executor.context.config.timeout.getD 0 / 1000) executor.project)
  | .exited code =>
      if code = some 0 then none else some (.failed tasks executor.project code)

/-- Runs the tasks, of which there may be none, and waits for Gradle to end. -/
def execute (executor : Executor) (tasks : List String) : Action Unit := do
  if tasks.isEmpty then return
  if !(← Action.isFile executor.script) then throw (.missingFile executor.script)
  if executor.context.config.onCi then
    Action.createFolders executor.userHome
    Action.createFolders executor.androidUserHome
    Action.createFolders executor.localRepository
  let ending ← executor.run tasks
  match executor.mishap? tasks ending with
  | some mishap => throw (.taskExecution mishap)
  | none => return

end Executor

def withExecutor {α : Type} (behaviour : Behaviour) (context : Context) (project : Path)
    (action : Executor → Action α) : Action α :=
  Action.withScratch fun scratch => action { project, context, behaviour, scratch }

end Cookbook.Gradle
