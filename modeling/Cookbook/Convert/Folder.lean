import Cookbook.Recipe.Discovery
import Cookbook.Session

/-!
Emptying folders. Hidden entries may be looked away from, and clearing a folder spares them.
-/

namespace Cookbook

/-- Whether a folder holds nothing, or nothing but hidden entries. -/
def isEmptyFolder (disk : Disk) (folder : Path) (ignoreHidden : Bool) :
    Except DiskFault Bool :=
  (disk.list folder).map fun tree =>
    tree.entries.all fun (name, _) => ignoreHidden && isHidden name

def clearEntry (folder : Path) (name : String) : Action Unit := do
  if !isHidden name then
    let path := folder.joinName name
    Action.change path (·.remove path)

/-- Deletes what a folder holds, except hidden entries. -/
def clearFolder (folder : Path) : Action Unit := do
  let tree ← Action.look folder (·.list folder)
  tree.entries.forM fun (name, _) => clearEntry folder name

end Cookbook
