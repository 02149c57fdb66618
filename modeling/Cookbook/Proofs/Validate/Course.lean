import Cookbook.Proofs.Scratch

/-!
Courses of actions: which Gradle runs an action makes and how it ends, as long as the disk does not get
in its way. An action follows a course if it makes these runs and ends so, unless an operation on the
disk fails before. Actions that follow one course come to the same but for the paths they work in.
-/

namespace Cookbook

/-! ## What is told without paths -/

namespace Gradle

/-- What can be told of a run without paths: the tasks, the files of the project and the ending. -/
structure Gist where
  tasks : List String
  files : Location → Option FileData
  ending : Ending

def Run.gist (run : Run) : Gist := ⟨run.tasks, run.content.fileAt?, run.ending⟩

end Gradle

def Session.gists (session : Session) : List Gradle.Gist := session.runs.map (·.gist)

def Mishap.pathless : Mishap → Mishap
  | failed tasks _ exitCode => failed tasks ⟨""⟩ exitCode
  | timedOut seconds _ => timedOut seconds ⟨""⟩
  | notStarted fault => notStarted fault

namespace Failure

/-- A failure with its paths left out. -/
def pathless : Failure → Failure
  | missingDescriptor _ => missingDescriptor ⟨""⟩
  | malformedDescriptor _ flaw => malformedDescriptor ⟨""⟩ flaw
  | unresolvedMinimum _ minimum cause => unresolvedMinimum ⟨""⟩ minimum cause.pathless
  | invalidDestination value _ => invalidDestination value ⟨""⟩
  | notAFolder _ => notAFolder ⟨""⟩
  | destinationNotEmpty _ => destinationNotEmpty ⟨""⟩
  | missingFile _ => missingFile ⟨""⟩
  | taskExecution mishap => taskExecution mishap.pathless
  | io _ fault => io ⟨""⟩ fault
  | failure => failure

/-- Whether an operation on the disk has failed. -/
def isIo : Failure → Bool
  | io _ _ => true
  | _ => false

end Failure

/-- That two verdicts are the same but for the paths of a failure. -/
def SameVerdict {α : Type} (first second : Except Failure α) : Prop :=
  first.mapError (·.pathless) = second.mapError (·.pathless)

section SameVerdict

variable {α β : Type} {first second : Except Failure α}

theorem SameVerdict.refl (verdict : Except Failure α) : SameVerdict verdict verdict := rfl

theorem sameVerdict_ok {value : α} : SameVerdict (.ok value) second ↔ second = .ok value := by
  cases second with
  | ok other => simp [SameVerdict, Except.mapError, eq_comm]
  | error failure => simp [SameVerdict, Except.mapError]

theorem sameVerdict_error {failure : Failure} :
    SameVerdict (.error failure) second ↔
      ∃ cause, second = .error cause ∧ failure.pathless = cause.pathless := by
  cases second with
  | ok value => simp [SameVerdict, Except.mapError]
  | error cause => simp [SameVerdict, Except.mapError]

theorem SameVerdict.bind {next next' : α → Except Failure β} (same : SameVerdict first second)
    (onward : ∀ value, SameVerdict (next value) (next' value)) :
    SameVerdict (first >>= next) (second >>= next') := by
  cases first with
  | ok value =>
      rw [sameVerdict_ok.mp same]
      exact onward value
  | error failure =>
      obtain ⟨cause, rfl, alike⟩ := sameVerdict_error.mp same
      exact sameVerdict_error.mpr ⟨cause, rfl, alike⟩

end SameVerdict

/-! ## Courses -/

/-- The runs that are made and how it ends. -/
structure Course (α : Type) where
  gists : List Gradle.Gist
  verdict : Except Failure α

namespace Course

variable {α β : Type}

instance : Monad Course where
  pure value := ⟨[], .ok value⟩
  bind course next := match course.verdict with
    | .ok value => ⟨course.gists ++ (next value).gists, (next value).verdict⟩
    | .error failure => ⟨course.gists, .error failure⟩

def ofExcept (verdict : Except Failure α) : Course α := ⟨[], verdict⟩

/-- The course of a single run. -/
def ran (gist : Gradle.Gist) : Course Unit := ⟨[gist], .ok ()⟩

end Course

/-- That an action makes the runs of a course in a session and ends as it does, but for paths, or is
stopped by the disk before. -/
structure Follows {α β : Type} (action : Action α) (session : Session) (course : Course β)
    (meets : α → β → Session → Prop) : Prop where
  ok : ∀ value after, action.run session = .ok value after →
    after.gists = session.gists ++ course.gists ∧
      ∃ expected, course.verdict = .ok expected ∧ meets value expected after
  error : ∀ failure after, action.run session = .error failure after →
    after.gists = session.gists ++ course.gists ∧ (∃ cause, course.verdict = .error cause ∧
      failure.pathless = cause.pathless) ∨
    failure.isIo = true ∧ after.gists <+: session.gists ++ course.gists

section Follows

open Action

variable {α β γ δ : Type} {action : Action α} {session : Session} {course : Course β}
  {meets : α → β → Session → Prop}

theorem Follows.mono {meets' : α → β → Session → Prop} (follows : Follows action session course meets)
    (weaker : ∀ value expected after, meets value expected after → meets' value expected after) :
    Follows action session course meets' := by
  refine ⟨?_, follows.error⟩
  intro value after run
  obtain ⟨gists, expected, verdict, met⟩ := follows.ok value after run
  exact ⟨gists, expected, verdict, weaker _ _ _ met⟩

theorem Follows.ran (follows : Follows action session course meets) :
    Follows action session course
      fun value expected after => meets value expected after ∧ action.run session = .ok value after := by
  refine ⟨?_, follows.error⟩
  intro value after run
  obtain ⟨gists, expected, verdict, met⟩ := follows.ok value after run
  exact ⟨gists, expected, verdict, met, run⟩

theorem Follows.after {other : Action α} {between : Session}
    (onward : action.run session = other.run between) (gists : between.gists = session.gists)
    (follows : Follows other between course meets) : Follows action session course meets := by
  refine ⟨?_, ?_⟩
  · intro value after run
    rw [← gists]
    exact follows.ok value after (onward ▸ run)
  · intro failure after run
    rw [← gists]
    exact follows.error failure after (onward ▸ run)

theorem Follows.of_run {other : Action α} (same : action.run session = other.run session)
    (follows : Follows other session course meets) : Follows action session course meets :=
  follows.after same rfl

end Follows

/-! ## Actions that come to the same -/

/-- That the disk stops an action in a session, after no runs but the first ones of some. -/
def StoppedWithin {α : Type} (action : Action α) (session : Session) (gists : List Gradle.Gist) : Prop :=
  ∃ failure after, action.run session = .error failure after ∧ failure.isIo = true ∧
    after.gists <+: gists

section Comparing

open Action

variable {β : Type} {first second action : Action Unit} {session : Session} {course : Course β}
  {meets meets' : Unit → β → Session → Prop}

theorem Follows.ends (follows : Follows action session course meets) :
    (action.left session).gists = session.gists ++ course.gists ∧
        SameVerdict (action.outcome session) (course.verdict.map fun _ => ()) ∨
      StoppedWithin action session (session.gists ++ course.gists) := by
  cases run : action.run session with
  | ok value after =>
      obtain ⟨gists, expected, verdict, -⟩ := follows.ok value after run
      rw [left_of_ok run, outcome_of_ok run, verdict]
      exact .inl ⟨gists, .refl _⟩
  | error failure after =>
      obtain ⟨gists, cause, verdict, same⟩ | ⟨io, starts⟩ := follows.error failure after run
      · rw [left_of_error run, outcome_of_error run, verdict]
        exact .inl ⟨gists, sameVerdict_error.mpr ⟨cause, rfl, same⟩⟩
      · exact .inr ⟨failure, after, run, io, starts⟩

end Comparing

end Cookbook
