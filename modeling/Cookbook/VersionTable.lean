import Cookbook.OrderedMap
import Cookbook.ReleaseLine
import Cookbook.Text.Blank

/-!
The table that pairs each release line with the Gradle and Kotlin versions it is built with. It is
read from text with one row `line;gradle;kotlin` per line of text; blank lines and lines that start
with `#` are skipped, and the last row of a line counts.
-/

namespace Cookbook

structure Companions where
  gradle : String
  kotlin : String
deriving DecidableEq, Repr

abbrev VersionTable := OrderedMap ReleaseLine Companions

namespace VersionTable

inductive Flaw
  | tooFewFields (row : String)
  | notALine (field : String)
deriving DecidableEq, Repr

def Flaw.message : Flaw → String
  | tooFewFields row => "expected 'agp;gradle;kotlin', found '" ++ row ++ "'"
  | notALine field => "unable to parse short AGP version '" ++ field ++ "'"

/-- What a line of text adds to the table: nothing if it is blank or a comment. -/
def row? (text : String) : Except Flaw (Option (ReleaseLine × Companions)) :=
  let row := Text.trimmed text.toList
  if row.isEmpty || row.head? = some '#' then .ok none
  else match (Text.fields ';' row).map fun field => String.ofList (Text.trimmed field) with
    | line :: gradle :: kotlin :: _ => match ReleaseLine.parse? line with
        | some line => .ok (some (line, ⟨gradle, kotlin⟩))
        | none => .error (.notALine line)
    | _ => .error (.tooFewFields (String.ofList row))

/-- Adds rows to a table. A flaw comes with its number, counted from the given one. -/
def addRows : Nat → VersionTable → List String → Except (Nat × Flaw) VersionTable
  | _, table, [] => .ok table
  | number, table, text :: rest => match row? text with
      | .error flaw => .error (number, flaw)
      | .ok none => addRows (number + 1) table rest
      | .ok (some (line, companions)) =>
          addRows (number + 1) (table.insert line companions) rest

def parse (content : String) : Except (Nat × Flaw) VersionTable :=
  addRows 1 .empty (Text.lines content)

end VersionTable

end Cookbook
