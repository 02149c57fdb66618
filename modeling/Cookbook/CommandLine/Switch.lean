/-!
Command lines: options that are switched on, options that take values, and what is left over. An
option has a long name after two dashes and may have a letter after one. A value follows its option as
an argument of its own or in the same one; letters without values may share an argument.
-/

namespace Cookbook.CommandLine

inductive Rejection
  | unknown (argument : String)
  | repeated (option : String)
  | valueMissing (option : String)
  | valueRefused (option value : String)
  | optionMissing (option : String)
  | conflict (option other : String)
  | commandMissing
deriving DecidableEq, Repr

/-- Why a command line asks for no work. -/
inductive Stop
  | help
  /-- Nothing was asked for, so that help is shown. -/
  | nothing
  | version
  | rejected (rejection : Rejection)
deriving DecidableEq, Repr

/-- The values that an option takes. -/
inductive Values
  | any
  /-- Anything but the empty text. -/
  | path
  | oneOf (choices : List String)
  /-- A whole number of 64 bits, which may have a plus sign. -/
  | number
deriving DecidableEq, Repr

inductive Meaning
  | flag
  | takes (values : Values)
  | stop (stop : Stop)
deriving DecidableEq, Repr

structure Switch where
  name : String
  letter : Option Char := none
  meaning : Meaning
deriving DecidableEq, Repr

/-- The number that a text is, if it has 64 bits. -/
def number? (text : String) : Option Nat :=
  let digits := match text.toList with
    | '+' :: rest => rest
    | cs => cs
  if digits.isEmpty || !digits.all Char.isDigit then none
  else
    let number := digits.foldl (fun n c => n * 10 + (c.toNat - '0'.toNat)) 0
    if number < UInt64.size then some number else none

def Values.accepts (values : Values) (text : String) : Bool :=
  match values with
  | any => true
  | path => text ≠ ""
  | oneOf choices => choices.contains text
  | number => (number? text).isSome

/-- The options that were given, with their values. A flag has the empty value. -/
abbrev Settings := List (String × String)

namespace Settings

def has (settings : Settings) (name : String) : Bool := (settings.lookup name).isSome

def put (settings : Settings) (name value : String) : Except Stop Settings :=
  if settings.has name then .error (.rejected (.repeated name))
  else .ok (settings ++ [(name, value)])

def putValue (settings : Settings) (switch : Switch) (value : String) : Except Stop Settings :=
  match switch.meaning with
  | .takes values =>
      if values.accepts value then settings.put switch.name value
      else .error (.rejected (.valueRefused switch.name value))
  | .flag | .stop _ => .error (.rejected (.valueRefused switch.name value))

/-- Puts down an option without a value in its argument. If it takes one, it is handed back. -/
def putBare (settings : Settings) (switch : Switch) : Except Stop (Settings × Option Switch) :=
  match switch.meaning with
  | .flag => do return (← settings.put switch.name "", none)
  | .takes _ => .ok (settings, some switch)
  | .stop stop => .error stop

/-- Reads an argument of letters. The argument itself is given for messages. -/
def readLetters (switches : List Switch) (argument : String) :
    Settings → List Char → Except Stop (Settings × Option Switch)
  | settings, [] => .ok (settings, none)
  | settings, c :: cs =>
      match switches.find? (·.letter = some c) with
      | none => .error (.rejected (.unknown argument))
      | some switch => do
          let (settings, awaiting) ← settings.putBare switch
          match awaiting, cs with
          | none, _ => readLetters switches argument settings cs
          | some switch, [] => return (settings, some switch)
          | some switch, '=' :: value =>
              return (← settings.putValue switch (String.ofList value), none)
          | some switch, value => return (← settings.putValue switch (String.ofList value), none)

def readName (switches : List Switch) (argument : String) (settings : Settings) (cs : List Char) :
    Except Stop (Settings × Option Switch) :=
  let name := String.ofList (cs.takeWhile (· ≠ '='))
  match switches.find? (·.name = name), cs.dropWhile (· ≠ '=') with
  | none, _ => .error (.rejected (.unknown argument))
  | some switch, [] => settings.putBare switch
  | some switch, _ :: value => do return (← settings.putValue switch (String.ofList value), none)

/-- Reads options up to the first argument that is none, or to the end. An option may be waiting for
its value, which cannot look like an option. Two dashes end the options. -/
def read (switches : List Switch) :
    Settings → Option Switch → List String → Except Stop (Settings × List String)
  | settings, none, [] => .ok (settings, [])
  | _, some switch, [] => .error (.rejected (.valueMissing switch.name))
  | settings, awaiting, argument :: rest =>
      match argument.toList, awaiting with
      | '-' :: _ :: _, some switch => .error (.rejected (.valueMissing switch.name))
      | ['-', '-'], none => match rest with
          | [] => .ok (settings, [])
          | extra :: _ => .error (.rejected (.unknown extra))
      | '-' :: '-' :: cs, none => do
          let (settings, awaiting) ← settings.readName switches argument cs
          read switches settings awaiting rest
      | '-' :: c :: cs, none => do
          let (settings, awaiting) ← readLetters switches argument settings (c :: cs)
          read switches settings awaiting rest
      | _, some switch => do
          let settings ← settings.putValue switch argument
          read switches settings none rest
      | _, none => .ok (settings, argument :: rest)

end Settings

end Cookbook.CommandLine
