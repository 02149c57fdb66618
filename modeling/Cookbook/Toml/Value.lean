/-!
The values of a document. A table remembers how it came about and an array whether it was made by
headers, since that decides which later lines may add to them.
-/

namespace Cookbook.Toml

inductive ScalarKind
  | integer
  | float
  | boolean
  | dateTime
deriving DecidableEq, Repr

inductive Origin
  /-- Opened by a header of its own, or the document itself. -/
  | header
  /-- Named on the way in a header of a table inside it. -/
  | implied
  /-- Named on the way in a dotted key. -/
  | dotted
  | inline
deriving DecidableEq, Repr

inductive Value
  | string (text : String)
  | scalar (kind : ScalarKind) (text : String)
  | array (byHeaders : Bool) (items : List Value)
  | table (origin : Origin) (entries : List (String × Value))
deriving Inhabited

abbrev Entries := List (String × Value)

def Entries.get? (entries : Entries) (key : String) : Option Value := entries.lookup key

def Entries.set (entries : Entries) (key : String) (value : Value) : Entries :=
  match entries with
  | [] => [(key, value)]
  | (other, old) :: rest =>
      if other = key then (key, value) :: rest else (other, old) :: Entries.set rest key value

/-- Changes the table that a path leads to, starting in a table with the given origin. Tables that
are missing on the way are made; a path into an array made by headers leads into its last table. No
path leads into a table between braces, and a dotted one into none that has a header. -/
def Entries.change (dotted : Bool) (f : Origin → Entries → Option Entries) :
    List String → Origin → Entries → Option Entries
  | [], origin, entries => f origin entries
  | key :: path, _, entries =>
      match entries.get? key with
      | none =>
          let origin := if dotted then .dotted else .implied
          (change dotted f path origin []).map fun inner => entries.set key (.table origin inner)
      | some (.table origin inner) =>
          if origin = .inline || (dotted && origin = .header) then none
          else (change dotted f path origin inner).map fun inner =>
            entries.set key (.table origin inner)
      | some (.array true items) => match items.getLast? with
          | some (.table origin inner) =>
              (change dotted f path origin inner).map fun inner =>
                entries.set key (.array true (items.dropLast ++ [.table origin inner]))
          | _ => none
      | some _ => none

/-- Adds a value under a dotted key. Only tables that dotted keys made may be added to by them, and
no key is given twice. -/
def Entries.add (key : List String) (value : Value) (origin : Origin) (entries : Entries) :
    Option Entries :=
  match key.getLast? with
  | none => none
  | some last =>
      let place := key.dropLast
      entries.change true (fun origin entries =>
        if (origin == .dotted) == place.isEmpty || (entries.get? last).isSome then none
        else some (entries.set last value)) place origin

end Cookbook.Toml
