import Cookbook.Markup.Flaw

/-!
Character references: the five predefined names, and numbers in decimal (up to seven digits) or
hexadecimal (up to six). A reference runs from an ampersand to the next semicolon and holds no other
ampersand.
-/

namespace Cookbook.Markup

/-- The value of a run of digits in a base of at most sixteen; an empty run is zero. -/
def digitsValue? (base : Nat) (cs : List Char) : Option Nat :=
  cs.foldlM (fun value c => do
    let digit ←
      if c.isDigit then some (c.toNat - '0'.toNat)
      else if 'a' ≤ c ∧ c ≤ 'f' then some (c.toNat - 'a'.toNat + 10)
      else if 'A' ≤ c ∧ c ≤ 'F' then some (c.toNat - 'A'.toNat + 10)
      else none
    if digit < base then some (value * base + digit) else none) 0

def codePoint? (code : Nat) : Option Char :=
  if code ≠ 0 ∧ code.isValidChar then some (Char.ofNat code) else none

/-- The character that a reference names, without its ampersand and semicolon. -/
def reference? : List Char → Option Char
  | '#' :: 'x' :: digits =>
      if digits.length ≤ 6 then digitsValue? 16 digits >>= codePoint? else none
  | '#' :: digits => if digits.length ≤ 7 then digitsValue? 10 digits >>= codePoint? else none
  | name =>
      if name = ['l', 't'] then some '<'
      else if name = ['g', 't'] then some '>'
      else if name = ['a', 'm', 'p'] then some '&'
      else if name = ['a', 'p', 'o', 's'] then some '\''
      else if name = ['q', 'u', 'o', 't'] then some '"'
      else none

/-- Puts characters in the place of references. The first argument is the reference that the text
starts inside of, if any, last character first. -/
def resolveIn : Option (List Char) → List Char → Except Flaw (List Char)
  | none, [] => .ok []
  | some _, [] => .error .unfinishedReference
  | none, c :: cs =>
      if c = '&' then resolveIn (some []) cs
      else (resolveIn none cs).map (c :: ·)
  | some name, c :: cs =>
      if c = '&' then .error .unfinishedReference
      else if c = ';' then
        match reference? name.reverse with
        | none => .error (.unknownReference (String.ofList name.reverse))
        | some named => (resolveIn none cs).map (named :: ·)
      else resolveIn (some (c :: name)) cs

def resolve (cs : List Char) : Except Flaw (List Char) := resolveIn none cs

end Cookbook.Markup
