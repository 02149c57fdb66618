import Cookbook.Toml.Document

/-!
What a recipe's metadata file says, before any of it is checked. A section may be a table or an array
of its values in order; keys that mean nothing here are passed over.
-/

namespace Cookbook

structure Metadata where
  minimum : Option String
  maximum : Option String
  destination : Option String
  title : Option String
  tasks : List String
  validationTasks : Option (List String)
  keywords : List String
deriving DecidableEq, Repr

namespace Metadata

open Toml (Fault Value Entries)

def text (key : String) : Value → Except Fault String
  | .string text => .ok text
  | _ => .error (.wrongType key "a string")

def texts (key : String) : Value → Except Fault (List String)
  | .array _ items => items.mapM (text key)
  | _ => .error (.wrongType key "an array of strings")

def optional {α : Type} (read : Value → Except Fault α) : Option Value → Except Fault (Option α)
  | none => .ok none
  | some value => (read value).map some

/-- Looks up the fields of a section, given in their order. A date counts as a section without any of
them. -/
def sectionFields (key : String) (names : List String) :
    Option Value → Except Fault (List (Option Value))
  | none => .ok (names.map fun _ => none)
  | some (.table _ entries) => .ok (names.map (Entries.get? entries))
  | some (.array _ items) => .ok (names.mapIdx fun place _ => items[place]?)
  | some (.scalar .dateTime _) => .ok (names.map fun _ => none)
  | some _ => .error (.wrongType key "a table")

def field (fields : List (Option Value)) (place : Nat) : Option Value := fields[place]?.join

def ofEntries (entries : Entries) : Except Fault Metadata := do
  let version ← sectionFields "agpVersion" ["min", "max"] (entries.get? "agpVersion")
  let tasks ← sectionFields "gradleTasks" ["tasks", "validationTasks"] (entries.get? "gradleTasks")
  let index ← sectionFields "indexMetadata" ["index"] (entries.get? "indexMetadata")
  return {
    minimum := ← optional (text "agpVersion.min") (field version 0)
    maximum := ← optional (text "agpVersion.max") (field version 1)
    destination := ← optional (text "destinationFolder") (entries.get? "destinationFolder")
    title := ← optional (text "indexName") (entries.get? "indexName")
    tasks := (← optional (texts "gradleTasks.tasks") (field tasks 0)).getD []
    validationTasks := ← optional (texts "gradleTasks.validationTasks") (field tasks 1)
    keywords := (← optional (texts "indexMetadata.index") (field index 0)).getD [] }

def read (content : String) : Except Fault Metadata := do ofEntries (← Toml.read content)

end Metadata

end Cookbook
