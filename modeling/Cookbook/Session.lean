import Cookbook.Failure
import Cookbook.Feed
import Cookbook.Gradle.Invocation

/-!
Actions: what a run does to the disk and remembers. An action that fails keeps what it has done
before.
-/

namespace Cookbook

structure Session where
  disk : Disk
  /-- The published releases, once the feed was read without failure. -/
  published : Option Published := none
  runs : List Gradle.Run := []
  /-- What was printed for the user. -/
  printed : String := ""
  /-- What was printed besides. -/
  complained : String := ""

abbrev Action := EStateM Failure Session

namespace Action

def ofExcept {α : Type} : Except Failure α → Action α
  | .ok value => pure value
  | .error failure => throw failure

/-- The outcome of an action. What a failed one has done is kept. -/
def attempt {α : Type} (action : Action α) : Action (Except Failure α) := fun session =>
  match action session with
  | .ok value session => .ok (.ok value) session
  | .error failure session => .ok (.error failure) session

def look {α : Type} (path : Path) (ask : Disk → Except DiskFault α) : Action α := do
  match ask (← get).disk with
  | .ok value => return value
  | .error fault => throw (.io path fault)

def setDisk (disk : Disk) : Action Unit := modify fun session => { session with disk }

def change (path : Path) (f : Disk → Except DiskFault Disk) : Action Unit := do
  setDisk (← look path f)

def isFile (path : Path) : Action Bool := return (← get).disk.isFile path

def isFolder (path : Path) : Action Bool := return (← get).disk.isFolder path

def readText (path : Path) : Action String := look path (·.readText path)

def writeText (path : Path) (text : String) : Action Unit :=
  change path (·.writeFile path text.toUTF8)

def createFolders (path : Path) : Action Unit := do
  let (disk, outcome) := (← get).disk.createFolders path
  setDisk disk
  match outcome with
  | .ok () => return
  | .error fault => throw (.io path fault)

def print (text : String) : Action Unit :=
  modify fun session => { session with printed := session.printed ++ text }

def complain (text : String) : Action Unit :=
  modify fun session => { session with complained := session.complained ++ text }

/-- Makes a scratch folder, hands its path to the action and deletes it afterwards, whether the action
succeeds or not. -/
def withScratch {α : Type} (action : Path → Action α) : Action α := do
  let disk := (← get).disk
  let home := if disk.scratchHome.isAbsolute then disk.scratchHome
    else (Path.ofPieces true disk.here).join disk.scratchHome
  let scratch := home.joinName (".tmp" ++ toString disk.scratchMade)
  setDisk { disk with scratchMade := disk.scratchMade + 1 }
  change disk.scratchHome (·.createFolder scratch)
  let outcome ← attempt (action scratch)
  modify fun session => match session.disk.remove scratch with
    | .ok disk => { session with disk }
    | .error _ => session
  ofExcept outcome

end Action

end Cookbook
