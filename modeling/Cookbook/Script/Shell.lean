import Cookbook.Gradle.Invocation
import Cookbook.Script.Command
import Cookbook.Script.Echo
import Cookbook.Script.Pattern
import Cookbook.Text.Lines
import Cookbook.Text.Substitute

/-!
Running shell scripts. A script has a disk, arguments and variables, prints on two channels and takes
no time except by sleeping. Values are not split into words.
-/

namespace Cookbook.Script

inductive Sink
  | printed
  | complained
  | file (path : Path)
deriving DecidableEq, Repr

structure Channels where
  out : Sink := .printed
  err : Sink := .complained

structure Shell where
  disk : Disk
  /-- The path by which the script was started. -/
  name : String
  arguments : List String
  bindings : List (String × String)
  status : Nat := 0
  /-- The milliseconds that were slept. -/
  slept : Nat := 0
  timeout : Option Nat
  printed : ByteArray := .empty
  complained : ByteArray := .empty
  /-- How the script ended, once it has. -/
  ending : Option Gradle.Ending := none

namespace Shell

/-- The number of the shell's own process. -/
def processId : String := "100"

def withStatus (shell : Shell) (status : Nat) : Shell := { shell with status }

def «end» (shell : Shell) (ending : Gradle.Ending) : Shell := { shell with ending := some ending }

def write (sink : Sink) (bytes : ByteArray) (shell : Shell) : Shell :=
  match sink with
  | .printed => { shell with printed := shell.printed ++ bytes }
  | .complained => { shell with complained := shell.complained ++ bytes }
  | .file path =>
      let before := match shell.disk.readFile path with
        | .ok data => data.bytes
        | .error _ => .empty
      match shell.disk.writeFile path (before ++ bytes) with
      | .ok disk => { shell with disk }
      | .error _ => shell

def writeText (sink : Sink) (text : String) (shell : Shell) : Shell :=
  shell.write sink text.toUTF8

/-! ## Words -/

def value? (shell : Shell) (name : List Char) : Option String :=
  match name with
  | ['*'] | ['@'] => some (String.intercalate " " shell.arguments)
  | ['$'] => some processId
  | ['?'] => some (toString shell.status)
  | ['#'] => some (toString shell.arguments.length)
  | ['0'] => some shell.name
  | [c] =>
      if c.isDigit then shell.arguments[c.toNat - '1'.toNat]?
      else shell.bindings.lookup (String.ofList name)
  | _ => shell.bindings.lookup (String.ofList name)

def use (value : Option String) : Use → List Char
  | .plain => (value.getD "").toList
  | .orElse text => (value.map String.toList).getD text
  | .withoutStart pattern =>
      Glob.withoutStart (pattern.map Glob.ofChar) (value.getD "").toList

def partText (shell : Shell) : Part → List Char
  | .char _ c => [c]
  | .value _ name how => use (shell.value? name) how

def wordText (shell : Shell) (word : Word) : String := String.ofList (word.flatMap shell.partText)

/-- The texts a word stands for: one, or each argument, or none for values that are empty. -/
def texts (shell : Shell) (word : Word) : List String :=
  match word with
  | [.value _ ['@'] .plain] => shell.arguments
  | [.value false name how] =>
      match use (shell.value? name) how with
      | [] => []
      | text => [String.ofList text]
  | _ => [shell.wordText word]

def pattern (shell : Shell) (word : Word) : List Glob :=
  word.flatMap fun part => match part with
    | .char true c => [.char c]
    | .char false c => [Glob.ofChar c]
    | .value true _ _ => (shell.partText part).map .char
    | .value false _ _ => (shell.partText part).map Glob.ofChar

/-! ## Redirections -/

def openFile (keep : Bool) (path : Path) (shell : Shell) : Option Shell :=
  if keep && shell.disk.isFile path then some shell
  else match shell.disk.writeFile path .empty with
    | .ok disk => some { shell with disk }
    | .error _ => none

/-- Opens the channels of a command, or none if a file cannot be written to. -/
def redirect : Channels → List Redirection → Shell → Option (Channels × Shell)
  | channels, [], shell => some (channels, shell)
  | channels, .toFile channel keep file :: rest, shell => do
      let path : Path := ⟨shell.wordText file⟩
      let shell ← shell.openFile keep path
      redirect (set channels channel (.file path)) rest shell
  | channels, .toChannel channel target :: rest, shell =>
      redirect (set channels channel (if target = 2 then channels.err else channels.out)) rest shell
where
  set (channels : Channels) (channel : Nat) (sink : Sink) : Channels :=
    if channel = 2 then { channels with err := sink } else { channels with out := sink }

/-! ## Commands -/

def faultText (command file : String) (fault : DiskFault) : String :=
  command ++ ": " ++ file ++ ": " ++ fault.message ++ "\n"

def cat (channels : Channels) (shell : Shell) (file : String) : Shell :=
  match shell.disk.readFile ⟨file⟩ with
  | .ok data => shell.write channels.out data.bytes
  | .error fault => (shell.writeText channels.err (faultText "cat" file fault)).withStatus 1

/-- Prints the lines of a file that mention a text. -/
def grep (channels : Channels) (text file : String) (shell : Shell) : Shell :=
  match shell.disk.readFile ⟨file⟩ with
  | .ok data =>
      let lines := (Text.fields '\n' ((String.fromUTF8? data.bytes).getD "").toList).map String.ofList
      let found := lines.filter fun line => line ≠ "" && Text.mentions line text
      (shell.writeText channels.out (Text.unlines found)).withStatus (if found.isEmpty then 1 else 0)
  | .error fault => (shell.writeText channels.err (faultText "grep" file fault)).withStatus 2

def test : List String → Bool
  | ["-n", text] => text ≠ ""
  | ["-z", text] => text = ""
  | [text] => text ≠ ""
  | [left, "=", right] => left = right
  | [left, "!=", right] => left ≠ right
  | _ => false

def sleep (shell : Shell) (seconds : String) : Shell :=
  let slept := shell.slept + (seconds.toNat?.getD 0) * 1000
  if shell.timeout.any (· ≤ slept) then shell.end .timedOut else { shell with slept }

def builtin (channels : Channels) (name : String) (arguments : List String) (shell : Shell) :
    Shell :=
  match name with
  | "echo" => (shell.writeText channels.out (echoed arguments)).withStatus 0
  | "cat" => arguments.foldl (cat channels) (shell.withStatus 0)
  | "grep" => match arguments with
      | [text, file] => shell.grep channels text file
      | _ => shell.withStatus 2
  | "[" =>
      shell.withStatus (if arguments.getLast? = some "]" && test arguments.dropLast then 0 else 1)
  | "sleep" => arguments.foldl sleep (shell.withStatus 0)
  | "exit" =>
      shell.end (.exited (some ((arguments.head?.bind String.toNat?).getD shell.status % 256)))
  | "kill" =>
      if arguments.contains processId then shell.end (.exited none) else shell.withStatus 1
  | "true" | ":" => shell.withStatus 0
  | "false" => shell.withStatus 1
  | _ =>
      (shell.writeText channels.err (shell.name ++ ": " ++ name ++ ": not found\n")).withStatus 127

/-- A command in the place of the script, which ends with it. -/
def replaced (shell : Shell) : Shell :=
  if shell.ending.isSome then shell else shell.end (.exited (some shell.status))

def simple (channels : Channels) (words : List Word) (shell : Shell) : Shell :=
  match words.flatMap shell.texts with
  | [] => shell.withStatus 0
  | "exec" :: name :: arguments => (shell.builtin channels name arguments).replaced
  | name :: arguments => shell.builtin channels name arguments

def redirected (channels : Channels) (redirections : List Redirection) (shell : Shell)
    (run : Channels → Shell → Shell) : Shell :=
  match redirect channels redirections shell with
  | some (channels, shell) => run channels shell
  | none => (shell.writeText channels.err (shell.name ++ ": cannot create\n")).withStatus 2

mutual

/-- Runs a command, unless the script has ended. -/
def run (channels : Channels) (command : Command) (shell : Shell) : Shell :=
  if shell.ending.isSome then shell
  else match command with
    | .nothing => shell
    | .simple words redirections =>
        shell.redirected channels redirections fun channels shell => shell.simple channels words
    | .sequence first second => (shell.run channels first).run channels second
    | .onSuccess first second =>
        let shell := shell.run channels first
        if shell.status = 0 then shell.run channels second else shell
    | .onFailure first second =>
        let shell := shell.run channels first
        if shell.status = 0 then shell else shell.run channels second
    | .group body redirections =>
        shell.redirected channels redirections fun channels shell => shell.run channels body
    | .loop name items body =>
        (items.flatMap shell.texts).foldl (fun shell item =>
          { shell with bindings := (name, item) :: shell.bindings }.run channels body)
          (shell.withStatus 0)
    | .choice subject arms =>
        (shell.withStatus 0).choose channels (shell.wordText subject).toList arms
    | .arm .. => shell

/-- Runs the first of the arms that has a pattern which covers the text. -/
def choose (channels : Channels) (text : List Char) (arms : Command) (shell : Shell) : Shell :=
  match arms with
  | .arm patterns body later =>
      if patterns.any fun word => Glob.covers (shell.pattern word) text then shell.run channels body
      else shell.choose channels text later
  | _ => shell

end

end Shell

end Cookbook.Script
