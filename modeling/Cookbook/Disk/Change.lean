import Cookbook.Disk.Tree

/-!
What has to be done to a tree to make it another one, and placing a tree at a place of another.
-/

namespace Cookbook

inductive Change
  | delete (place : Location)
  | createFolder (place : Location)
  | write (place : Location) (data : FileData)

namespace Tree

/-- What goes away when a folder comes to hold other things: the names it loses, and those that change
between a file and a folder. -/
def losses (place : Location) (before after : Tree) : List Change :=
  before.entries.filterMap fun (name, entry) =>
    if (after.get? name).any fun other => other.isFolder = entry.isFolder then none
    else some (.delete (place ++ [name]))

/-- What is new or other in a folder than it was before. -/
def gains (place : Location) (before : Tree) : Tree → List Change
  | empty => []
  | file name data rest =>
      (if before.get? name = some (.file data) then [] else [.write (place ++ [name]) data]) ++
        gains place before rest
  | folder name content rest =>
      let place' := place ++ [name]
      (match before.get? name with
        | some (.folder old) => losses place' old content ++ gains place' old content
        | _ => .createFolder place' :: gains place' empty content) ++
        gains place before rest

/-- The changes from one tree to another, in an order in which they can be made. -/
def changes (before after : Tree) : List Change := losses [] before after ++ gains [] before after

/-- Puts an entry at a place, with the folders that lead there. -/
def graft (entry : Entry) : Location → Tree → Tree
  | [], tree => match entry with
      | .folder content => content
      | .file _ => tree
  | [name], tree => tree.set name entry
  | name :: place, tree =>
      let content := match tree.get? name with
        | some (.folder content) => content
        | _ => empty
      tree.set name (.folder (graft entry place content))

end Tree

end Cookbook
