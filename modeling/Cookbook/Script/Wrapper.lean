import Cookbook.Script.Shell

/-!
Projects whose Gradle wrapper is a shell script: running Gradle there is running the script. The
project's folder is entered first, and the path of the script is followed from there.
-/

namespace Cookbook.Script

def interpreter : String := "/bin/sh"

/-- The first line of a script that the interpreter runs. -/
def announces (script : String) : Bool :=
  match (Text.fields '\n' script.toList).head? with
  | some ('#' :: '!' :: line) =>
      let words := (line.dropWhile (· = ' ')).takeWhile (· ≠ ' ')
      String.ofList words = interpreter
  | _ => false

/-- The script at a path, or why it cannot be run. -/
def script (disk : Disk) (path : Path) : Except DiskFault String := do
  if !path.text.toList.contains '/' then throw .missing
  match ← disk.entry path with
  | .folder _ => throw .notExecutable
  | .file data =>
      if !data.executable then throw .notExecutable
      match String.fromUTF8? data.bytes with
      | some script => if announces script then return script else throw .notAProgram
      | none => throw .notAProgram

/-- Whether a text can be handed to a program. -/
def passable (text : String) : Bool := !text.toList.contains '\x00'

/-- The script that an invocation runs, and the folder it runs in. -/
def start (invocation : Gradle.Invocation) (disk : Disk) : Except DiskFault (String × Location) := do
  if !(invocation.arguments.all passable && invocation.environment.all fun (_, v) => passable v) then
    throw .nulInPath
  let place ← disk.locate invocation.project
  let _ ← Disk.folderIn disk.root place
  let script ← script { disk with here := place } (invocation.project.joinName "gradlew")
  return (script, place)

/-- Gradle as the wrapper scripts of projects are. The bindings are the variables that are set for
every run. -/
def gradle (bindings : List (String × String)) : Gradle.Behaviour := fun invocation disk =>
  match start invocation disk with
  | .error fault => { ending := .notStarted fault, printed := "", complained := "", disk }
  | .ok (script, place) =>
      if invocation.timeout = some 0 then
        { ending := .timedOut, printed := "", complained := "", disk }
      else
        let shell : Shell := {
          disk := { disk with here := place }
          name := (invocation.project.joinName "gradlew").text
          arguments := invocation.arguments
          bindings := ("PWD", (Path.ofPieces true place).text) :: invocation.environment ++ bindings
          timeout := invocation.timeout }
        let shell := match parse script with
          | some command => shell.run {} command
          | none => shell.withStatus 2
        { ending := shell.ending.getD (.exited (some (shell.status % 256)))
          printed := (String.fromUTF8? shell.printed).getD ""
          complained := (String.fromUTF8? shell.complained).getD ""
          disk := { shell.disk with here := disk.here } }

end Cookbook.Script
