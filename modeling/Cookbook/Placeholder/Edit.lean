import Cookbook.Placeholder.Block

/-!
Filling in placeholders. An edit says what a marker stands for: a value inside of lines, or whole
lines in the place of the line that mentions it. An edit is either wrapped, so that it can be undone,
or made for good.
-/

namespace Cookbook

inductive Edit
  /-- The value replaces the marker; a line whose value is empty goes away. -/
  | inline (marker value : String)
  /-- The lines replace each line that mentions the marker. -/
  | lines (marker : String) (values : List String)
deriving DecidableEq, Repr

namespace Edit

def marker : Edit → String
  | inline marker _ => marker
  | lines marker _ => marker

def generate : Edit → String → List String
  | inline marker value, line => if value = "" then [] else [Text.substitute line marker value]
  | lines _ values, _ => values

/-- The edit that puts a single line, or none if it is empty, in the place of the marker's line. -/
def line (marker value : String) : Edit := .lines marker (if value = "" then [] else [value])

def wrap (style : CommentStyle) (edit : Edit) (lines : List String) : List String :=
  Block.wrap style edit.marker edit.generate lines

def replace (edit : Edit) (lines : List String) : List String :=
  lines.flatMap fun line =>
    if Text.mentions line edit.marker then edit.generate line else [line]

end Edit

end Cookbook
