import Cookbook.Failure
import Cookbook.Disk.Basic
import Cookbook.Recipe.Descriptor
import Cookbook.Sorting

/-!
Finding recipes: the folders below a folder that hold a descriptor. Hidden folders and what is in them
are passed over. Folders come in the order of their names from the top, a folder before those in it.
-/

namespace Cookbook

def isHidden (name : String) : Bool := name.front? = some '.'

/-- Whether a place is the other one or comes before it: names are compared from the top. -/
def Location.comesBefore (first second : Location) : Bool :=
  !List.lex second first fun name other => name < other

/-- The folders in a tree that are not hidden, with what they hold. -/
def Tree.visibleFolders : Tree → List (Location × Tree)
  | empty => []
  | file _ _ rest => rest.visibleFolders
  | folder name content rest =>
      (if isHidden name then []
        else ([name], content) ::
          content.visibleFolders.map fun (place, inner) => (name :: place, inner)) ++
        rest.visibleFolders

def Tree.holdsDescriptor (tree : Tree) : Bool :=
  match tree.get? Descriptor.fileName with
  | some (.file _) => true
  | _ => false

def isRecipe (disk : Disk) (folder : Path) : Bool :=
  disk.isFile (folder.joinName Descriptor.fileName)

def findRecipes (disk : Disk) (root : Path) : Except Failure (List Path) :=
  match disk.entry root with
  | .ok (.folder tree) =>
      let sorted := sortBy (fun first second => first.1.comesBefore second.1) tree.visibleFolders
      let folders := sorted.map fun (place, inner) => (root.joinNames place, inner)
      match folders.find? fun (path, _) => (disk.refuse? path).isSome with
      | some (path, _) => .error (.io path .nameTooLong)
      | none => .ok ((folders.filter fun (path, inner) =>
          inner.holdsDescriptor &&
            (disk.refuse? (path.joinName Descriptor.fileName)).isNone).map (·.1))
  | _ => .error (.notAFolder root)

end Cookbook
