import Cookbook.CommandLine.Run
import Cookbook.Disk.Change
import Cookbook.Script.Wrapper

/-!
The program: reads what the command line is about from the file system, runs the command line, and
makes the changes to the file system that come of it.
-/

namespace Cookbook.Program

/-- The variables of the environment that mean something to a run or to Gradle. -/
def labels : List String := [
  "RECIPES_ROOT", "RECIPES_MAVEN_METADATA", "TMPDIR", "JAVA_HOME", "ANDROID_HOME",
  "GRADLE_USER_HOME", "ANDROID_USER_HOME"]

def environment : IO (List (String × String)) :=
  labels.filterMapM fun label => do return (← IO.getEnv label).map (label, ·)

/-- Where a path leads if there are no links on the way. -/
def place (here : Location) (path : Path) : Location :=
  path.steps.foldl (fun place step =>
    if step = "." then place else if step = ".." then place.dropLast else place ++ [step])
    (if path.isAbsolute then [] else here)

def pathText (place : Location) : String := (Path.ofPieces true place).text

/-- A file that announces what runs it may be run. -/
def fileData (bytes : ByteArray) : FileData where
  bytes
  executable := bytes.toList.take 2 = "#!".toUTF8.toList

/-- What there is at a path. What cannot be read is taken to be missing. -/
partial def readEntry (path : String) : IO (Option Entry) := do
  try
    let folder ← IO.FS.realPath path
    if ← folder.isDir then
      let mut tree := Tree.empty
      for item in ← folder.readDir do
        if let some entry ← readEntry item.path.toString then
          tree := tree.set item.fileName entry
      return some (.folder tree)
    else return some (.file (fileData (← IO.FS.readBinFile path)))
  catch _ => return none

/-- Adds what there is at a place, unless the place lies in one of those that are there. -/
def readPlace (known : List Location) (tree : Tree) (place : Location) :
    IO (List Location × Tree) := do
  if known.any (·.isPrefixOf place) then return (known, tree)
  match ← readEntry (pathText place) with
  | some entry => return (place :: known, tree.graft entry place)
  | none => return (known, tree)

/-- The disk as far as a request is about it. The folder for scratch folders is taken to be empty. -/
def readDisk (request : Option CommandLine.Request) (scratchHome : Path) : IO Disk := do
  let here := place [] ⟨(← IO.currentDir).toString⟩
  let paths := (request.map (·.paths)).getD []
  let mut known := []
  let mut root := Tree.empty
  if request.isSome then
    for place in here :: paths.map (place here) do
      (known, root) ← readPlace known root place
  let scratch := place here scratchHome
  if (root.at? scratch).isNone then root := root.graft (.folder .empty) scratch
  return { root, here, scratchHome }

def makeChange : Change → IO Unit
  | .delete place => do
      let path ← IO.FS.realPath (pathText place)
      if ← path.isDir then IO.FS.removeDirAll path else IO.FS.removeFile path
  | .createFolder place => IO.FS.createDirAll (pathText place)
  | .write place data => do
      IO.FS.writeBinFile (pathText place) data.bytes
      if data.executable then
        let all : IO.AccessRight := { read := true, write := true, execution := true }
        let others : IO.AccessRight := { read := true, execution := true }
        IO.setAccessRights (pathText place) { user := all, group := others, other := others }

end Cookbook.Program

open Cookbook in
def main (arguments : List String) : IO UInt32 := do
  let environment ← Program.environment
  let request := (CommandLine.Request.read environment arguments).toOption
  let scratchHome : Path := ⟨(environment.lookup "TMPDIR").getD "/tmp"⟩
  let disk ← Program.readDisk request scratchHome
  let finish := CommandLine.run (Script.gradle environment) environment arguments disk
  for change in disk.root.changes finish.disk.root do
    Program.makeChange change
  IO.print finish.printed
  IO.eprint finish.complained
  return UInt32.ofNat finish.exitCode
