import Cookbook.Convert.Conversion
import Cookbook.Index

/-!
Converting all recipes below a folder. One that fails is put down and does not stop the others; those
that were converted are listed in an index next to them.
-/

namespace Cookbook

/-- What became of the recipes, by the names of their folders, in the order they were found in. -/
structure Batch where
  converted : List String := []
  /-- Recipes that do not support the release. -/
  skipped : List String := []
  failed : List (String × Failure) := []
  index : Index := .empty

namespace Batch

def hasFailures (batch : Batch) : Bool := !batch.failed.isEmpty

def note (batch : Batch) (name : String) : Except Failure Conversion → Batch
  | .error failure => { batch with failed := batch.failed ++ [(name, failure)] }
  | .ok conversion => match conversion.outcome with
    | .converted => { batch with
        converted := batch.converted ++ [name]
        index := Index.add batch.index conversion.descriptor }
    | .nonCompliant => { batch with skipped := batch.skipped ++ [name] }

def indexPath (destination : Path) : Path := destination.joinName Index.fileName

end Batch

namespace Converter

def convertEach (converter : Converter) (destination : Path) :
    Batch → List Path → Action Batch
  | batch, [] => return batch
  | batch, folder :: folders => do
      let outcome ← Action.attempt (converter.convert folder destination)
      converter.convertEach destination (batch.note folder.name outcome) folders

/-- Converts all recipes below a folder and writes the index. -/
def convertAll (converter : Converter) (source destination : Path) : Action Batch := do
  if !(← Action.isFolder source) then throw (.notAFolder source)
  Action.createFolders destination
  let recipes ← Action.ofExcept (findRecipes (← get).disk source)
  let batch ← converter.convertEach destination {} recipes
  let release := converter.mode.target?.map (·.release)
  Action.writeText (Batch.indexPath destination) (Index.render batch.index release)
  return batch

end Converter

end Cookbook
