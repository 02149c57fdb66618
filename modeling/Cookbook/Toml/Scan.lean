/-!
Scanning a document: a scan takes something off the front of the unread characters, or fails and says
what was unread where it failed. This module holds the parts between keys and values: blanks,
comments and line ends.
-/

namespace Cookbook.Toml

abbrev Unread := List Char

abbrev Scan (α : Type) := Except Unread (α × Unread)

/-- Characters that comments and one-line strings may hold: tabs and all but control characters. -/
def isPlain (c : Char) : Bool := c = '\t' || (0x20 ≤ c.toNat && c.toNat ≠ 0x7F)

def skipBlanks (cs : List Char) : Unread := cs.dropWhile fun c => c = ' ' || c = '\t'

def newline? : List Char → Option Unread
  | '\n' :: rest => some rest
  | '\r' :: '\n' :: rest => some rest
  | _ => none

def skipComment : List Char → Unread
  | '#' :: rest => rest.dropWhile isPlain
  | cs => cs

/-- The rest after the end of a line: blanks, perhaps a comment, and a line feed or the end. -/
def lineEnd (cs : List Char) : Except Unread Unread :=
  match skipComment (skipBlanks cs) with
  | [] => .ok []
  | rest => match newline? rest with
    | some next => .ok next
    | none => .error rest

/-- The rest after blanks, line ends and comments that end with their line. -/
def skipSpace : Nat → List Char → Unread
  | 0, cs => cs
  | fuel + 1, cs =>
      let cs := skipBlanks cs
      match newline? (skipComment cs) with
      | some next => skipSpace fuel next
      | none => cs

def skipSpaces (cs : List Char) : Unread := skipSpace (cs.length + 1) cs

end Cookbook.Toml
