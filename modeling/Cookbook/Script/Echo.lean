/-!
The text that `echo` prints: a backslash starts an escape, which may be an octal code, and `\c` ends
the text for good.
-/

namespace Cookbook.Script

def octal? (c : Char) : Option Nat :=
  if '0' ≤ c ∧ c ≤ '7' then some (c.toNat - '0'.toNat) else none

def escapeLetters : List (Char × Char) := [
  ('\\', '\\'), ('a', '\x07'), ('b', '\x08'), ('f', '\x0c'), ('n', '\n'), ('r', '\r'), ('t', '\t'),
  ('v', '\x0b')]

/-- What an escape is in the middle of. -/
inductive EchoState
  | plain
  | backslash
  /-- An octal code, with how many digits may still follow. -/
  | code (value : Nat) (digitsLeft : Nat)

/-- The characters that the text stands for, and whether the text goes on after them. -/
def unescape : EchoState → List Char → List Char × Bool
  | .plain, [] => ([], true)
  | .backslash, [] => (['\\'], true)
  | .code value _, [] => ([Char.ofNat (value % 256)], true)
  | .plain, c :: cs =>
      if c = '\\' then unescape .backslash cs else put c (unescape .plain cs)
  | .backslash, c :: cs =>
      if c = 'c' then ([], false)
      else match octal? c, escapeLetters.lookup c with
        | some digit, _ => unescape (.code digit (if digit = 0 then 3 else 2)) cs
        | none, some named => put named (unescape .plain cs)
        | none, none => put '\\' (put c (unescape .plain cs))
  | .code value left, c :: cs =>
      let done := Char.ofNat (value % 256)
      match left, octal? c with
      | left + 1, some digit => unescape (.code (value * 8 + digit) left) cs
      | _, _ =>
          if c = '\\' then put done (unescape .backslash cs)
          else put done (put c (unescape .plain cs))
where
  put (c : Char) (result : List Char × Bool) : List Char × Bool := (c :: result.1, result.2)

def echoed (arguments : List String) : String :=
  let (arguments, newline) := match arguments with
    | "-n" :: rest => (rest, false)
    | _ => (arguments, true)
  let (text, goesOn) := unescape .plain (String.intercalate " " arguments).toList
  String.ofList text ++ if newline && goesOn then "\n" else ""

end Cookbook.Script
