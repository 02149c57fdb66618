import Cookbook.Disk.Basic

/-!
Runs of Gradle as they are seen from outside. What Gradle does is not fixed: it is any function from
an invocation and a disk to a report.
-/

namespace Cookbook.Gradle

structure Invocation where
  project : Path
  arguments : List String
  /-- Variables that are set for the run, in order. -/
  environment : List (String × String)
  /-- After how many milliseconds the run is ended. -/
  timeout : Option Nat
deriving DecidableEq, Repr

inductive Ending
  | notStarted (fault : DiskFault)
  | timedOut
  /-- The run ended by itself; one that a signal ended has no exit code. -/
  | exited (code : Option Nat)
deriving DecidableEq, Repr

namespace Ending

def succeeded (ending : Ending) : Bool := ending = .exited (some 0)

end Ending

structure Report where
  ending : Ending
  printed : String
  complained : String
  disk : Disk

/-- What Gradle does in a project. -/
abbrev Behaviour := Invocation → Disk → Report

structure Run where
  invocation : Invocation
  tasks : List String
  /-- What the project held when the run began. -/
  content : Tree
  ending : Ending
deriving DecidableEq

end Cookbook.Gradle
