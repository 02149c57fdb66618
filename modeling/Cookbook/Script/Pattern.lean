/-!
Patterns of shell scripts: characters that stand for themselves, `?` for any character and `*` for any
run of them.
-/

namespace Cookbook.Script

inductive Glob
  | char (c : Char)
  | anyChar
  | anyRun
deriving DecidableEq, Repr

namespace Glob

/-- An unquoted character of a pattern. -/
def ofChar (c : Char) : Glob :=
  if c = '*' then anyRun else if c = '?' then anyChar else char c

/-- The text and everything that is left of it after dropping characters from its front. -/
def ends : List Char → List (List Char)
  | [] => [[]]
  | c :: cs => (c :: cs) :: ends cs

def covers : List Glob → List Char → Bool
  | [], cs => cs.isEmpty
  | char c :: pattern, cs => match cs with
      | d :: cs => c = d && covers pattern cs
      | [] => false
  | anyChar :: pattern, cs => match cs with
      | _ :: cs => covers pattern cs
      | [] => false
  | anyRun :: pattern, cs => (ends cs).any (covers pattern)

/-- What is left after the longest start that the pattern covers. -/
def withoutStart (pattern : List Glob) (cs : List Char) : List Char :=
  match ((ends cs.reverse).map List.reverse).find? (covers pattern) with
  | some start => cs.drop start.length
  | none => cs

end Glob

end Cookbook.Script
