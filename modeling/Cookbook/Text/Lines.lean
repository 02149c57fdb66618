/-!
Fields between separators and lines between line feeds. A line ends in a line feed, which may
follow one carriage return; the last line needs no end, and a text's last line feed opens no line.
-/

namespace Cookbook.Text

/-- The stretches between the separators, of which there is always one more. -/
def fields (separator : Char) : List Char → List (List Char)
  | [] => [[]]
  | c :: cs =>
      if c = separator then [] :: fields separator cs
      else match fields separator cs with
        | [] => [[c]]
        | field :: rest => (c :: field) :: rest

theorem fields_ne_nil (separator : Char) (cs : List Char) : fields separator cs ≠ [] := by
  cases cs with
  | nil => simp [fields]
  | cons c cs =>
      rw [fields]
      split
      · simp
      · split <;> simp

/-- The line without the one carriage return it may end in. -/
def dropReturn (cs : List Char) : List Char :=
  if cs.getLast? = some '\r' then cs.dropLast else cs

def lines (s : String) : List String :=
  let pieces := fields '\n' s.toList
  let ended := pieces.dropLast.map fun line => String.ofList (dropReturn line)
  match pieces.getLast? with
  | none | some [] => ended
  | some open_ => ended ++ [String.ofList open_]

def unlines (lines : List String) : String :=
  String.join (lines.map fun line => line ++ "\n")

end Cookbook.Text
