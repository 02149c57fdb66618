import Cookbook.Path
import Cookbook.Disk.Fault
import Cookbook.Disk.Tree

/-!
A disk: a file tree, the folder that relative paths start from, and the operations on files and
folders that paths name. An operation that fails changes nothing, except `createFolders`, which
keeps the folders it made before the one it could not make.
-/

namespace Cookbook

structure Disk where
  root : Tree
  /-- The folder that relative paths start from. -/
  here : Location
  /-- The folder that scratch folders are made in. -/
  scratchHome : Path := ⟨"/tmp"⟩
  /-- How many scratch folders were made, which numbers the next one. -/
  scratchMade : Nat := 0
  /-- A path with this many bytes is too long to be used. -/
  pathLimit : Nat := 4096
deriving DecidableEq

namespace Disk

def nameLimit : Nat := 255

/-- The entry at a place, or why the way to it ends early. -/
def entryIn : Tree → Location → Except DiskFault Entry
  | tree, [] => .ok (.folder tree)
  | tree, name :: place =>
      if nameLimit < name.utf8ByteSize then .error .nameTooLong
      else match tree.get? name with
        | none => .error .missing
        | some (.folder content) => entryIn content place
        | some (.file data) => if place = [] then .ok (.file data) else .error .notAFolder

/-- What the folder at a place holds. -/
def folderIn (tree : Tree) (place : Location) : Except DiskFault Tree :=
  match entryIn tree place with
  | .ok (.folder content) => .ok content
  | .ok (.file _) => .error .notAFolder
  | .error fault => .error fault

/-- Follows steps from a place, whose names are kept last to first. Staying and going up ask that
there be a folder; a name may lead to nothing. -/
def walk (tree : Tree) : Location → List String → Except DiskFault Location
  | above, [] => .ok above.reverse
  | above, step :: steps =>
      if step = "." || step = ".." then
        match folderIn tree above.reverse with
        | .ok _ => walk tree (if step = ".." then above.tail else above) steps
        | .error fault => .error fault
      else walk tree (step :: above) steps

/-- Why a text cannot be used as a path, whatever the disk holds. -/
def refuse? (d : Disk) (p : Path) : Option DiskFault :=
  if p.text = "" then some .missing
  else if p.text.toList.contains '\x00' then some .nulInPath
  else if d.pathLimit ≤ p.text.utf8ByteSize then some .nameTooLong
  else none

def locate (d : Disk) (p : Path) : Except DiskFault Location :=
  match d.refuse? p with
  | some fault => .error fault
  | none => walk d.root (if p.isAbsolute then [] else d.here.reverse) p.steps

def entry (d : Disk) (p : Path) : Except DiskFault Entry := do
  entryIn d.root (← d.locate p)

def isFile (d : Disk) (p : Path) : Bool :=
  match d.entry p with
  | .ok (.file _) => true
  | _ => false

def isFolder (d : Disk) (p : Path) : Bool :=
  match d.entry p with
  | .ok (.folder _) => true
  | _ => false

/-- What the folder holds, in the order in which it came to hold it. -/
def list (d : Disk) (p : Path) : Except DiskFault Tree := do
  folderIn d.root (← d.locate p)

def readFile (d : Disk) (p : Path) : Except DiskFault FileData := do
  match ← d.entry p with
  | .file data => .ok data
  | .folder _ => .error .isAFolder

def readText (d : Disk) (p : Path) : Except DiskFault String := do
  match String.fromUTF8? (← d.readFile p).bytes with
  | some text => .ok text
  | none => .error .notText

/-- The place of a path, split into the folder that is or would be above it and its name there. -/
def spot (d : Disk) (p : Path) : Except DiskFault (Location × Tree × String) := do
  let place ← d.locate p
  match place.getLast? with
  | none => .error .isAFolder
  | some name =>
      let folder ← folderIn d.root place.dropLast
      if nameLimit < name.utf8ByteSize then .error .nameTooLong
      else .ok (place.dropLast, folder, name)

def writeFile (d : Disk) (p : Path) (bytes : ByteArray) : Except DiskFault Disk := do
  let (above, folder, name) ← d.spot p
  match folder.get? name with
  | some (.folder _) => .error .isAFolder
  -- A file that is there keeps whether it may be run.
  | some (.file data) => put above name { data with bytes }
  | none => put above name { bytes, executable := false }
where
  put (above : Location) (name : String) (data : FileData) : Except DiskFault Disk :=
    .ok { d with root := d.root.change (·.set name (.file data)) above }

def setExecutable (d : Disk) (p : Path) (executable : Bool) : Except DiskFault Disk := do
  let (above, folder, name) ← d.spot p
  match folder.get? name with
  | some (.file data) =>
      .ok { d with root := d.root.change (·.set name (.file { data with executable })) above }
  | some (.folder _) => .error .isAFolder
  | none => .error .missing

/-- Copies a file with the right to run it. -/
def copyFile (d : Disk) (source target : Path) : Except DiskFault Disk := do
  match ← d.entry source with
  | .folder _ => .error .notAFile
  | .file data =>
      -- A file that is copied onto itself is lost, as it is emptied before it is read.
      let emptied ← d.writeFile target ByteArray.empty
      let written ← emptied.writeFile target (← emptied.readFile source).bytes
      written.setExecutable target data.executable

def createFolder (d : Disk) (p : Path) : Except DiskFault Disk := do
  match (← d.locate p.withoutLastSlash).getLast? with
  | none => .error .alreadyThere
  | some _ =>
      let (above, folder, name) ← d.spot p.withoutLastSlash
      match folder.get? name with
      | some _ => .error .alreadyThere
      | none => .ok { d with root := d.root.change (·.set name (.folder .empty)) above }

/-- Makes the folder that comes first after those that follow it in the list, so far as they are
missing. -/
def createChain : Disk → List Path → Disk × Except DiskFault Unit
  | d, [] => (d, .error .missing)
  | d, p :: above =>
      -- The empty path stands for a folder that is there.
      if p.text = "" then (d, .ok ())
      else match d.createFolder p with
        | .ok made => (made, .ok ())
        | .error .missing => match createChain d above with
            | (made, .error fault) => (made, .error fault)
            | (made, .ok ()) => match made.createFolder p with
                | .ok all => (all, .ok ())
                | .error fault => (made, if made.isFolder p then .ok () else .error fault)
        | .error fault => (d, if d.isFolder p then .ok () else .error fault)

/-- Makes a folder and those above it, so far as they are missing. That the folder is there already is
no fault. -/
def createFolders (d : Disk) (p : Path) : Disk × Except DiskFault Unit :=
  match d.createFolder p with
  | .ok made => (made, .ok ())
  | .error .missing => d.createChain (p :: p.above)
  | .error fault => (d, if d.isFolder p then .ok () else .error fault)

def remove (d : Disk) (p : Path) : Except DiskFault Disk := do
  let (above, folder, name) ← d.spot p
  match folder.get? name with
  | some _ => .ok { d with root := d.root.change (·.erase name) above }
  | none => .error .missing

end Disk

end Cookbook
