import Cookbook.Text.Lines
import Cookbook.Toml.Text
import Cookbook.Toml.Value

/-!
Numbers, booleans, dates and times. Integers fit in 64 bits and no decimal float is too large to be
finite unless negative; dates are days of the calendar.
-/

namespace Cookbook.Toml

/-- What is taken off the front of the characters, and the rest. -/
abbrev Taken := Option (List Char × List Char)

def takeOne (accept : Char → Bool) : List Char → Taken
  | c :: cs => if accept c then some ([c], cs) else none
  | [] => none

def takeWord (word : String) (cs : List Char) : Taken :=
  if word.toList.isPrefixOf cs then some (word.toList, cs.drop word.length) else none

/-- Nothing at all, where nothing else can be taken. -/
def orNothing (cs : List Char) (taken : Taken) : List Char × List Char := taken.getD ([], cs)

/-- Digits, with single underscores between them, which are left out of the result. -/
def takeDigits (accept : Char → Bool) (cs : List Char) : Taken :=
  let run := cs.takeWhile fun c => accept c || c = '_'
  if (Text.fields '_' run).all (!·.isEmpty) then
    some (run.filter (· ≠ '_'), cs.drop run.length)
  else none

def takeSign : List Char → Taken := takeOne fun c => c = '+' || c = '-'

/-- A decimal number without leading zeros, with its sign. -/
def takeDecimal (cs : List Char) : Taken := do
  let (sign, rest) := orNothing cs (takeSign cs)
  match rest with
  | '0' :: rest => some (sign ++ ['0'], rest)
  | _ =>
      let (digits, rest) ← takeDigits Char.isDigit rest
      some (sign ++ digits, rest)

def decimalValue (cs : List Char) : Int :=
  match cs with
  | '-' :: digits => -Nat.ofDigitChars 10 digits 0
  | '+' :: digits => Nat.ofDigitChars 10 digits 0
  | digits => Nat.ofDigitChars 10 digits 0

def fitsWord64 (value : Int) : Bool :=
  Int64.minValue.toInt ≤ value && value ≤ Int64.maxValue.toInt

/-- An integer after its base's mark, such as `0x`. -/
def takeBased (base : Nat) (cs : List Char) : Taken := do
  let inBase (c : Char) : Bool := (hexValue? c).any (· < base)
  let (digits, rest) ← takeDigits inBase cs
  let value := digits.foldl (fun value c => value * base + (hexValue? c).getD 0) 0
  if fitsWord64 value then some (digits, rest) else none

def takeInteger (cs : List Char) : Taken :=
  match cs with
  | '0' :: 'x' :: rest => takeBased 16 rest
  | '0' :: 'o' :: rest => takeBased 8 rest
  | '0' :: 'b' :: rest => takeBased 2 rest
  | _ => (takeDecimal cs).filter fun (digits, _) => fitsWord64 (decimalValue digits)

def takeFraction (cs : List Char) : Taken := do
  let (point, rest) ← takeOne (· = '.') cs
  let (digits, rest) ← takeDigits Char.isDigit rest
  some (point ++ digits, rest)

def takeExponent (cs : List Char) : Taken := do
  let (_, rest) ← takeOne (fun c => c = 'e' || c = 'E') cs
  let (sign, rest) := orNothing rest (takeSign rest)
  let (digits, rest) ← takeDigits Char.isDigit rest
  some ('e' :: sign ++ digits, rest)

/-- Whether a positive decimal is too large for a finite double: at least half a step over the
largest one. -/
def isHuge (whole fraction exponent : List Char) : Bool :=
  let digits := Nat.ofDigitChars 10 (whole ++ fraction) 0
  let shift := decimalValue exponent - fraction.length
  let magnitude := shift + (Nat.toDigits 10 digits).length
  if digits = 0 || magnitude ≤ 300 then false
  else if 320 < magnitude then true
  else
    let bound := Nat.pow 2 1024 - Nat.pow 2 970
    if 0 ≤ shift then bound ≤ digits * Nat.pow 10 shift.toNat
    else bound * Nat.pow 10 (-shift).toNat ≤ digits

def takeFloat (cs : List Char) : Taken := do
  let (sign, rest) := orNothing cs (takeSign cs)
  match takeWord "inf" rest <|> takeWord "nan" rest with
  | some (word, rest) => some (sign ++ word, rest)
  | none =>
      let (whole, rest) ← takeDecimal cs
      let (fraction, rest) := orNothing rest (takeFraction rest)
      let (exponent, rest) := orNothing rest (takeExponent rest)
      guard (!(fraction.isEmpty && exponent.isEmpty))
      guard (whole.head? = some '-' ||
        !isHuge (whole.filter Char.isDigit) fraction.tail exponent.tail)
      some (whole ++ fraction ++ exponent, rest)

/-- A number of exactly so many digits that lies in a range. -/
def takeNumber (count least most : Nat) (cs : List Char) : Option (Nat × List Char) := do
  let digits := cs.take count
  guard (digits.length = count && digits.all Char.isDigit)
  let value := Nat.ofDigitChars 10 digits 0
  guard (least ≤ value && value ≤ most)
  return (value, cs.drop count)

def skipChar (wanted : Char) : List Char → Option (List Char)
  | c :: cs => if c = wanted then some cs else none
  | [] => none

def daysIn (year month : Nat) : Nat :=
  if month = 2 then
    if year % 4 = 0 && (year % 100 ≠ 0 || year % 400 = 0) then 29 else 28
  else if month = 4 || month = 6 || month = 9 || month = 11 then 30
  else 31

def afterDate (cs : List Char) : Option (List Char) := do
  let (year, rest) ← takeNumber 4 0 9999 cs
  let (month, rest) ← takeNumber 2 1 12 (← skipChar '-' rest)
  let (_, rest) ← takeNumber 2 1 (daysIn year month) (← skipChar '-' rest)
  return rest

/-- The rest after a time of day, which may be a leap second. -/
def afterTime (cs : List Char) : Option (List Char) := do
  let (_, rest) ← takeNumber 2 0 23 cs
  let (_, rest) ← takeNumber 2 0 59 (← skipChar ':' rest)
  let (_, rest) ← takeNumber 2 0 60 (← skipChar ':' rest)
  match rest with
  | '.' :: digits =>
      let after := digits.dropWhile Char.isDigit
      if after.length < digits.length then return after else return rest
  | _ => return rest

/-- The rest after an offset from universal time. -/
def afterOffset (cs : List Char) : Option (List Char) :=
  match cs with
  | 'Z' :: rest => some rest
  | 'z' :: rest => some rest
  | c :: rest =>
      if c = '+' || c = '-' then do
        let (_, rest) ← takeNumber 2 0 23 rest
        let (_, rest) ← takeNumber 2 0 59 (← skipChar ':' rest)
        return rest
      else none
  | [] => none

def afterDateTime (cs : List Char) : Option (List Char) :=
  match afterDate cs with
  | none => afterTime cs
  | some rest => match rest with
    | c :: time =>
        if c = 'T' || c = 't' || c = ' ' then
          match afterTime time with
          | some rest => some ((afterOffset rest).getD rest)
          | none => some rest
        else some rest
    | [] => some []

/-- The text between the characters and a rest of them. -/
def textBefore (cs rest : List Char) : String := String.ofList (cs.take (cs.length - rest.length))

def scalar? (cs : List Char) : Option (Value × List Char) :=
  let found (kind : ScalarKind) (rest : List Char) : Value × List Char :=
    (.scalar kind (textBefore cs rest), rest)
  (afterDateTime cs).map (found .dateTime)
    <|> (takeFloat cs).map (fun taken => found .float taken.2)
    <|> (takeInteger cs).map (fun taken => found .integer taken.2)
    <|> (takeWord "true" cs).map (fun taken => found .boolean taken.2)
    <|> (takeWord "false" cs).map (fun taken => found .boolean taken.2)

end Cookbook.Toml
