import Cookbook.Script.Word

/-!
The commands of shell scripts: simple ones with their redirections, sequences, conditions by success
and failure, groups, loops over words and choices by pattern.
-/

namespace Cookbook.Script

inductive Redirection
  | toFile (channel : Nat) (keep : Bool) (file : Word)
  | toChannel (channel target : Nat)
deriving DecidableEq, Repr

inductive Command
  | nothing
  | simple (words : List Word) (redirections : List Redirection)
  | sequence (first second : Command)
  | onSuccess (first second : Command)
  | onFailure (first second : Command)
  | group (body : Command) (redirections : List Redirection)
  | loop (name : String) (items : List Word) (body : Command)
  | choice (subject : Word) (arms : Command)
  /-- An arm of a choice, followed by the arms after it. -/
  | arm (patterns : List Word) (body later : Command)
deriving DecidableEq, Repr

def skipNewlines (tokens : List Token) : List Token := tokens.dropWhile (· = .newline)

def keyword? : Token → Option String
  | .word parts => Word.bare? parts
  | _ => none

/-- Whether a list of commands ends here. -/
def endsList : List Token → Bool
  | [] => true
  | .twoSemicolons :: _ => true
  | .closing :: _ => true
  | token :: _ => match keyword? token with
    | some word => word = "done" || word = "esac" || word = "\x7d"
    | none => false

def expect (word : String) : List Token → Option (List Token)
  | token :: rest => if keyword? token = some word then some rest else none
  | [] => none

/-- The words and redirections of a simple command. -/
def simpleParts : List Token → List Word × List Redirection × List Token
  | .word parts :: rest =>
      let (words, redirections, rest) := simpleParts rest
      (parts :: words, redirections, rest)
  | .toFile channel keep :: .word file :: rest =>
      let (words, redirections, rest) := simpleParts rest
      (words, .toFile channel keep file :: redirections, rest)
  | .toChannel channel target :: rest =>
      let (words, redirections, rest) := simpleParts rest
      (words, .toChannel channel target :: redirections, rest)
  | rest => ([], [], rest)

def armPatterns : List Token → Option (List Word × List Token)
  | .word pattern :: .closing :: rest => some ([pattern], rest)
  | _ => none

mutual

/-- The commands up to the end of a list. -/
def commands : Nat → List Token → Option (Command × List Token)
  | 0, _ => none
  | fuel + 1, tokens =>
      let tokens := tokens.dropWhile fun token => token = .newline || token = .semicolon
      if endsList tokens then some (.nothing, tokens)
      else do
        let (first, rest) ← conditions fuel tokens
        let (later, rest) ← commands fuel rest
        return (.sequence first later, rest)

/-- A command and those that depend on how it ends. -/
def conditions : Nat → List Token → Option (Command × List Token)
  | 0, _ => none
  | fuel + 1, tokens => do
      let (first, rest) ← command fuel tokens
      conditionsAfter fuel first rest

def conditionsAfter : Nat → Command → List Token → Option (Command × List Token)
  | 0, _, _ => none
  | fuel + 1, first, tokens =>
      match tokens with
      | .and :: rest => do
          let (second, rest) ← command fuel (skipNewlines rest)
          conditionsAfter fuel (.onSuccess first second) rest
      | .or :: rest => do
          let (second, rest) ← command fuel (skipNewlines rest)
          conditionsAfter fuel (.onFailure first second) rest
      | _ => some (first, tokens)

def command : Nat → List Token → Option (Command × List Token)
  | 0, _ => none
  | _, [] => none
  | fuel + 1, token :: tokens =>
      match keyword? token with
      | some "\x7b" => do
          let (body, rest) ← commands fuel tokens
          let rest ← expect "\x7d" rest
          match simpleParts rest with
          | ([], redirections, rest) => return (.group body redirections, rest)
          | _ => none
      | some "for" => match tokens with
          | .word name :: rest => do
              let name ← Word.bare? name
              let (items, _, rest) := simpleParts (← expect "in" rest)
              let rest ← expect "do" (rest.dropWhile fun t => t = .newline || t = .semicolon)
              let (body, rest) ← commands fuel rest
              return (.loop name items body, ← expect "done" rest)
          | _ => none
      | some "case" => match tokens with
          | .word subject :: rest => do
              let rest ← expect "in" (skipNewlines rest)
              let (arms, rest) ← arms fuel rest
              return (.choice subject arms, rest)
          | _ => none
      | _ => match simpleParts (token :: tokens) with
          | ([], [], _) => none
          | (words, redirections, rest) => some (.simple words redirections, rest)

/-- The arms of a choice and the word that ends it. -/
def arms : Nat → List Token → Option (Command × List Token)
  | 0, _ => none
  | fuel + 1, tokens =>
      match expect "esac" (skipNewlines tokens) with
      | some rest => some (.nothing, rest)
      | none => do
          let (patterns, rest) ← armPatterns (skipNewlines tokens)
          let (body, rest) ← commands fuel rest
          let rest := match rest with
            | .twoSemicolons :: rest => rest
            | _ => rest
          let (later, rest) ← arms fuel rest
          return (.arm patterns body later, rest)

end

def parse (script : String) : Option Command := do
  let cs := script.toList
  let tokens ← tokens (cs.length + 1) cs
  match ← commands (4 * tokens.length + 4) tokens with
  | (command, []) => some command
  | _ => none

end Cookbook.Script
