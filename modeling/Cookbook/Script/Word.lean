/-!
The words of shell scripts. A word is a run of characters and of values that are looked up when the
word is used. What stands in quotes is taken as it is; outside of quotes some characters have a
meaning in patterns.
-/

namespace Cookbook.Script

/-- What is made of a value. -/
inductive Use
  | plain
  /-- The text in place of a value that is not set. -/
  | orElse (text : List Char)
  /-- The value without the longest start that matches a pattern. -/
  | withoutStart (pattern : List Char)
deriving DecidableEq, Repr

inductive Part
  | char (quoted : Bool) (c : Char)
  | value (quoted : Bool) (name : List Char) (use : Use)
deriving DecidableEq, Repr

abbrev Word := List Part

/-- The text of a word without quotes and values, as keywords are written. -/
def Word.bare? (word : Word) : Option String :=
  (word.mapM fun (part : Part) => match part with
    | .char false c => some c
    | _ => none).map String.ofList

inductive Token
  | word (parts : Word)
  | newline
  | semicolon
  | twoSemicolons
  | and
  | or
  | closing
  /-- Output goes to the file that the next word names, whose content is kept if the flag is set. -/
  | toFile (channel : Nat) (keep : Bool)
  | toChannel (channel target : Nat)
deriving DecidableEq, Repr

def isNameChar (c : Char) : Bool := c.isAlphanum || c = '_'

/-- The value that a dollar sign starts, after that sign. -/
def value? (quoted : Bool) (cs : List Char) : Option (Part × List Char) :=
  match cs with
  | '\x7b' :: cs =>
      let name := cs.takeWhile isNameChar
      let inside := (cs.dropWhile isNameChar).takeWhile (· ≠ '\x7d')
      match cs.dropWhile (· ≠ '\x7d') with
      | [] => none
      | _ :: rest =>
          if name.isEmpty then none
          else match inside with
            | [] => some (.value quoted name .plain, rest)
            | '-' :: text => some (.value quoted name (.orElse text), rest)
            | '#' :: '#' :: pattern => some (.value quoted name (.withoutStart pattern), rest)
            | _ => none
  | c :: rest =>
      if c = '*' || c = '@' || c = '$' || c = '?' || c = '#' || c.isDigit then
        some (.value quoted [c] .plain, rest)
      else if isNameChar c then
        some (.value quoted (cs.takeWhile isNameChar) .plain, cs.dropWhile isNameChar)
      else none
  | [] => none

def endsWord (c : Char) : Bool :=
  c = ' ' || c = '\t' || c = '\n' || c = ';' || c = '&' || c = '|' || c = '<' || c = '>' ||
    c = '(' || c = ')'

/-- The parts of a word and the rest. The quote that the characters start inside of is given. -/
def wordParts : Nat → Option Char → List Char → Option (Word × List Char)
  | 0, _, _ => none
  | _, quote, [] => if quote.isNone then some ([], []) else none
  | fuel + 1, quote, c :: cs =>
      let next (part : Part) (rest : List Char) : Option (Word × List Char) :=
        (wordParts fuel quote rest).map fun (parts, rest) => (part :: parts, rest)
      match quote with
      | some open_ =>
          if c = open_ then wordParts fuel none cs
          else if open_ = '\'' then next (.char true c) cs
          else match c, cs with
            | '\\', escaped :: rest =>
                if escaped = '\n' then wordParts fuel quote rest
                else if escaped = '$' || escaped = '"' || escaped = '\\' || escaped.toNat = 0x60 then
                  next (.char true escaped) rest
                else next (.char true c) cs
            | '$', _ => match value? true cs with
                | some (part, rest) => next part rest
                | none => next (.char true c) cs
            | _, _ => next (.char true c) cs
      | none =>
          if endsWord c then some ([], c :: cs)
          else match c, cs with
            | '"', _ => wordParts fuel (some '"') cs
            | '\'', _ => wordParts fuel (some '\'') cs
            | '\\', escaped :: rest =>
                if escaped = '\n' then wordParts fuel quote rest else next (.char true escaped) rest
            | '$', _ => match value? false cs with
                | some (part, rest) => next part rest
                | none => next (.char false c) cs
            | _, _ => next (.char false c) cs

/-- A redirection and the rest. -/
def redirection? (cs : List Char) : Option (Token × List Char) :=
  let (channel, cs) := match cs with
    | c :: '>' :: rest => if c.isDigit then (c.toNat - '0'.toNat, '>' :: rest) else (1, cs)
    | _ => (1, cs)
  match cs with
  | '>' :: '>' :: rest => some (.toFile channel true, rest)
  | '>' :: '&' :: digit :: rest =>
      if digit.isDigit then some (.toChannel channel (digit.toNat - '0'.toNat), rest) else none
  | '>' :: rest => some (.toFile channel false, rest)
  | _ => none

/-- The tokens of a script, if it is one. -/
def tokens : Nat → List Char → Option (List Token)
  | 0, _ => none
  | fuel + 1, cs =>
      let next (token : Token) (rest : List Char) : Option (List Token) :=
        (tokens fuel rest).map (token :: ·)
      match cs.dropWhile fun c => c = ' ' || c = '\t' with
      | [] => some []
      | '\n' :: rest => next .newline rest
      | '#' :: rest => tokens fuel (rest.dropWhile (· ≠ '\n'))
      | ';' :: ';' :: rest => next .twoSemicolons rest
      | ';' :: rest => next .semicolon rest
      | '&' :: '&' :: rest => next .and rest
      | '|' :: '|' :: rest => next .or rest
      | ')' :: rest => next .closing rest
      | cs => match redirection? cs with
          | some (token, rest) => next token rest
          | none => match wordParts (cs.length + 1) none cs with
              | some (parts, rest) =>
                  if rest.length < cs.length then next (.word parts) rest else none
              | none => none

end Cookbook.Script
