import Cookbook.Toml.Scan

/-!
Strings: basic ones, where a backslash escapes, and literal ones, where nothing does; each on one line
or, between three quotes, over several. A line end inside a string reads as one line feed, and one
right after three opening quotes is dropped.
-/

namespace Cookbook.Toml

def hexValue? (c : Char) : Option Nat :=
  if c.isDigit then some (c.toNat - '0'.toNat)
  else if 'a' ≤ c ∧ c ≤ 'f' then some (c.toNat - 'a'.toNat + 10)
  else if 'A' ≤ c ∧ c ≤ 'F' then some (c.toNat - 'A'.toNat + 10)
  else none

/-- The character with the code that the next so many hexadecimal digits spell. -/
def unicode? (count : Nat) (cs : List Char) : Option (Char × List Char) := do
  guard (count ≤ cs.length)
  let code ← (cs.take count).foldlM (fun code c => do return code * 16 + (← hexValue? c)) 0
  guard code.isValidChar
  return (Char.ofNat code, cs.drop count)

/-- The character that an escape stands for, after its backslash. -/
def escape? : List Char → Option (Char × List Char)
  | 'b' :: rest => some ('\x08', rest)
  | 't' :: rest => some ('\t', rest)
  | 'n' :: rest => some ('\n', rest)
  | 'f' :: rest => some ('\x0c', rest)
  | 'r' :: rest => some ('\r', rest)
  | '"' :: rest => some ('"', rest)
  | '\\' :: rest => some ('\\', rest)
  | 'u' :: rest => unicode? 4 rest
  | 'U' :: rest => unicode? 8 rest
  | _ => none

def put (c : Char) : Scan (List Char) → Scan (List Char)
  | .ok (text, rest) => .ok (c :: text, rest)
  | .error unread => .error unread

def basicText : Nat → List Char → Scan (List Char)
  | 0, cs => .error cs
  | _, [] => .error []
  | fuel + 1, c :: cs =>
      if c = '"' then .ok ([], cs)
      else if c = '\\' then
        match escape? cs with
        | some (named, rest) => put named (basicText fuel rest)
        | none => .error cs
      else if isPlain c then put c (basicText fuel cs)
      else .error (c :: cs)

def literalText : List Char → Scan (List Char)
  | [] => .error []
  | c :: cs =>
      if c = '\'' then .ok ([], cs)
      else if isPlain c then put c (literalText cs)
      else .error (c :: cs)

/-- Whether a run of quotes ends a string, and how many of them belong to it. -/
def closing? (quote : Char) (cs : List Char) : Option (List Char × List Char) :=
  let run := (cs.takeWhile (· = quote)).length
  if 3 ≤ run then
    let inside := min (run - 3) 2
    some (List.replicate inside quote, cs.drop (inside + 3))
  else none

def skipLineEnds : Nat → List Char → List Char
  | 0, cs => cs
  | fuel + 1, cs => match newline? (skipBlanks cs) with
    | some rest => skipLineEnds fuel rest
    | none => skipBlanks cs

/-- The rest after a backslash that ends its line: the line end and all gaps after it. -/
def continued? (cs : List Char) : Option (List Char) :=
  (newline? (skipBlanks cs)).map fun rest => skipLineEnds (rest.length + 1) rest

/-- A string over several lines after its opening quotes. -/
def longText (quote : Char) (escapes : Bool) : Nat → List Char → Scan (List Char)
  | 0, cs => .error cs
  | _, [] => .error []
  | fuel + 1, c :: cs =>
      match closing? quote (c :: cs) with
      | some closed => .ok closed
      | none =>
          match newline? (c :: cs) with
          | some rest => put '\n' (longText quote escapes fuel rest)
          | none =>
              if escapes && c = '\\' then
                match continued? cs with
                | some rest => longText quote escapes fuel rest
                | none => match escape? cs with
                  | some (named, rest) => put named (longText quote escapes fuel rest)
                  | none => .error cs
              else if isPlain c then put c (longText quote escapes fuel cs)
              else .error (c :: cs)

def string (text : Scan (List Char)) : Scan String :=
  text.map fun (text, rest) => (String.ofList text, rest)

/-- A string on one line, as keys may be written too. -/
def shortString? : List Char → Option (Scan String)
  | '"' :: cs => some (string (basicText (cs.length + 1) cs))
  | '\'' :: cs => some (string (literalText cs))
  | _ => none

def string? : List Char → Option (Scan String)
  | '"' :: '"' :: '"' :: cs => some (long '"' true cs)
  | '\'' :: '\'' :: '\'' :: cs => some (long '\'' false cs)
  | cs => shortString? cs
where
  long (quote : Char) (escapes : Bool) (cs : List Char) : Scan String :=
    let cs := (newline? cs).getD cs
    string (longText quote escapes (cs.length + 1) cs)

end Cookbook.Toml
