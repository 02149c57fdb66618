import Cookbook.Toml.Reader

/-!
Whole documents, line by line: key and value pairs go to the table of the header above them.
-/

namespace Cookbook.Toml

inductive Fault
  | unreadable (line column : Nat)
  | wrongType (key expected : String)
deriving DecidableEq, Repr

def Fault.message : Fault → String
  | unreadable line column =>
      "TOML parse error at line " ++ toString line ++ ", column " ++ toString column
  | wrongType key expected =>
      "TOML parse error at key '" ++ key ++ "': expected " ++ expected

/-- Opens the table of a header, which may have been implied so far. -/
def Entries.openTable (path : List String) (entries : Entries) : Option Entries :=
  match path.getLast? with
  | none => none
  | some last => entries.change false (fun _ entries =>
      match entries.get? last with
      | none => some (entries.set last (.table .header []))
      | some (.table .implied inner) => some (entries.set last (.table .header inner))
      | some _ => none) path.dropLast .header

/-- Adds a table to the array of a header with two brackets. -/
def Entries.openItem (path : List String) (entries : Entries) : Option Entries :=
  match path.getLast? with
  | none => none
  | some last => entries.change false (fun _ entries =>
      match entries.get? last with
      | none => some (entries.set last (.array true [.table .header []]))
      | some (.array true items) =>
          some (entries.set last (.array true (items ++ [.table .header []])))
      | some _ => none) path.dropLast .header

/-- Adds a value under a dotted key of the table that a header opened. -/
def Entries.addUnder (header key : List String) (value : Value) (entries : Entries) :
    Option Entries :=
  entries.change false (fun origin entries => entries.add key value origin) header .header

/-- What one line after its blanks does to a document: the header it leaves in force, the entries and
the rest. -/
def line (header : List String) (entries : Entries) (cs : List Char) :
    Except Unread ((List String × Entries) × Unread) := do
  match cs with
  | '#' :: _ => return ((header, entries), ← lineEnd cs)
  | '\n' :: rest => return ((header, entries), rest)
  | '\r' :: _ => match newline? cs with
      | some rest => return ((header, entries), rest)
      | none => .error cs
  | '[' :: '[' :: start =>
      match ← key start with
      | (path, ']' :: ']' :: rest) => match entries.openItem path with
          | some entries => return ((path, entries), ← lineEnd rest)
          | none => .error start
      | (_, rest) => .error rest
  | '[' :: start =>
      match ← key start with
      | (path, ']' :: rest) => match entries.openTable path with
          | some entries => return ((path, entries), ← lineEnd rest)
          | none => .error start
      | (_, rest) => .error rest
  | _ =>
      let ((path, value), rest) ← keyValue (value nestingLimit) cs
      match entries.addUnder header path value with
      | some entries => return ((header, entries), ← lineEnd rest)
      | none => .error cs

def linesFrom : Nat → List String → Entries → List Char → Except Unread Entries
  | 0, _, _, cs => .error cs
  | fuel + 1, header, entries, cs =>
      match skipBlanks cs with
      | [] => .ok entries
      | cs => do
          let ((header, entries), rest) ← line header entries cs
          linesFrom fuel header entries rest

/-- Where the unread end of a text starts. -/
def position (cs unread : List Char) : Fault :=
  let before := cs.take (cs.length - unread.length)
  let lastLine := before.reverse.takeWhile (· ≠ '\n')
  .unreadable (before.count '\n' + 1) (lastLine.length + 1)

/-- The entries of a document, which may start with a byte order mark. -/
def read (text : String) : Except Fault Entries :=
  let cs := match text.toList with
    | '\uFEFF' :: rest => rest
    | cs => cs
  match linesFrom (cs.length + 1) [] [] cs with
  | .ok entries => .ok entries
  | .error unread => .error (position cs unread)

end Cookbook.Toml
