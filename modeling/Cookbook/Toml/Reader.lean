import Cookbook.Toml.Scalar

/-!
Keys and values. A dotted key is its parts; containers may be nested 79 deep, and a key has at most
79 parts.
-/

namespace Cookbook.Toml

def nestingLimit : Nat := 79

/-- A key that is no string: letters, digits, underscores and dashes. -/
def bareKey (cs : List Char) : Scan String :=
  let key := cs.takeWhile fun c => c.isAlphanum || c = '_' || c = '-'
  if key.isEmpty then .error cs else .ok (String.ofList key, cs.drop key.length)

def keyPart (cs : List Char) : Scan String := (shortString? cs).getD (bareKey cs)

/-- The parts of a key, with the blanks around each of them. -/
def keyParts : Nat → List Char → Except Unread (List String × Unread)
  | 0, cs => .error cs
  | fuel + 1, cs => do
      let (part, rest) ← keyPart (skipBlanks cs)
      match skipBlanks rest with
      | '.' :: rest =>
          let (parts, rest) ← keyParts fuel rest
          return (part :: parts, rest)
      | rest => return ([part], rest)

def key (cs : List Char) : Scan (List String) := keyParts nestingLimit cs

def arrayItems (item : List Char → Scan Value) :
    Nat → List Char → Except Unread (List Value × Unread)
  | 0, cs => .error cs
  | fuel + 1, cs =>
      match skipSpaces cs with
      | ']' :: rest => .ok ([], rest)
      | cs => do
          let (value, rest) ← item cs
          match skipSpaces rest with
          | ',' :: rest =>
              let (values, rest) ← arrayItems item fuel rest
              return (value :: values, rest)
          | ']' :: rest => return ([value], rest)
          | rest => .error rest

def keyValue (item : List Char → Scan Value) (cs : List Char) :
    Except Unread ((List String × Value) × Unread) := do
  match ← key cs with
  | (path, '=' :: rest) =>
      let (value, rest) ← item (skipBlanks rest)
      return ((path, value), skipBlanks rest)
  | (_, rest) => .error rest

/-- The entries of an inline table after its first key is expected. -/
def inlineEntries (item : List Char → Scan Value) :
    Nat → Entries → List Char → Except Unread (Entries × Unread)
  | 0, _, cs => .error cs
  | fuel + 1, entries, cs => do
      let ((path, value), rest) ← keyValue item cs
      match entries.add path value .inline with
      | none => .error cs
      | some entries => match rest with
          | ',' :: rest => inlineEntries item fuel entries rest
          | '\x7d' :: rest => return (entries, rest)
          | rest => .error rest

/-- A value whose containers are nested at most so deep. -/
def value : Nat → List Char → Except Unread (Value × Unread)
  | depth, '[' :: cs => match depth with
      | 0 => .error cs
      | depth + 1 => do
          let (items, rest) ← arrayItems (value depth) (cs.length + 1) cs
          return (.array false items, rest)
  | depth, '\x7b' :: cs => match depth with
      | 0 => .error cs
      | depth + 1 => match skipBlanks cs with
          | '\x7d' :: rest => .ok (.table .inline [], rest)
          | cs => do
              let (entries, rest) ← inlineEntries (value depth) (cs.length + 1) [] cs
              return (.table .inline entries, rest)
  | _, cs => match string? cs with
      | some scan => scan.map fun (text, rest) => (.string text, rest)
      | none => match scalar? cs with
          | some taken => .ok taken
          | none => .error cs

end Cookbook.Toml
