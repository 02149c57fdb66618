import Cookbook.Markup.Flaw

/-!
A marked-up text as a sequence of tags and texts. Closing tags must name the element opened last.
Elements may stay open, a tag that the input cuts off is dropped, and a text comes without the gaps
at its ends and not at all if it is only gaps.
-/

namespace Cookbook.Markup

inductive Event
  | opening (name : List Char)
  | closing (name : List Char)
  | text (chars : List Char)
  /-- An empty element, a comment, a declaration or quoted character data. -/
  | aside
deriving DecidableEq, Repr

def isGap (c : Char) : Bool := c = ' ' || c = '\t' || c = '\r' || c = '\n'

def dropGaps (cs : List Char) : List Char := cs.dropWhile isGap

def dropLastGaps (cs : List Char) : List Char := (dropGaps cs.reverse).reverse

/-- Splits at the first `>` at which what comes before it, last character first, is complete. -/
def splitAtClose (complete : List Char → Bool) :
    List Char → List Char → Option (List Char × List Char)
  | _, [] => none
  | before, c :: cs =>
      if c = '>' && complete before then some (before.reverse, cs)
      else splitAtClose complete (c :: before) cs

/-- Splits at the first `>` outside of quotes. -/
def splitAtTagEnd : Option Char → List Char → Option (List Char × List Char)
  | _, [] => none
  | quote, c :: cs =>
      if quote = none ∧ c = '>' then some ([], cs)
      else
        let quote' := match quote with
          | none => if c = '"' ∨ c = '\'' then some c else none
          | some open_ => if c = open_ then none else quote
        (splitAtTagEnd quote' cs).map fun (tag, rest) => (c :: tag, rest)

/-- Splits at the first `>`, which the end of the input stands for as well. -/
def splitAtAngle (cs : List Char) : List Char × List Char :=
  (cs.takeWhile (· ≠ '>'), (cs.dropWhile (· ≠ '>')).tail)

def startsLike (cs start : List Char) : Bool :=
  (cs.take start.length).map Char.toLower = start.map Char.toLower

/-- What follows `<!`: a comment, quoted character data or a document type. The result is the text
after it. -/
def afterBang (cs : List Char) : Except Flaw (List Char) :=
  match cs with
  | '-' :: _ =>
      match splitAtClose (fun before => before.take 2 = ['-', '-'] && 4 ≤ before.length) [] cs with
      | some (body, rest) =>
          if body.take 2 = ['-', '-'] then .ok rest else .error (.unfinished "a comment")
      | none => .error (.unfinished "a comment")
  | '[' :: _ =>
      match splitAtClose (fun before => before.take 2 = [']', ']']) [] cs with
      | some (body, rest) =>
          if startsLike body "[CDATA[".toList then .ok rest
          else .error (.unfinished "character data")
      | none => .error (.unfinished "character data")
  | c :: _ =>
      if c = 'D' ∨ c = 'd' then
        match splitAtClose (fun before => before.count '<' = before.count '>') [] cs with
        | some (body, rest) =>
            if startsLike body "DOCTYPE".toList then
              if (dropGaps (body.drop 7)).isEmpty then .error .emptyDocumentType else .ok rest
            else .error (.unfinished "a document type")
        | none => .error (.unfinished "a document type")
      else .error (.unfinished "a declaration")
  | [] => .error (.unfinished "a declaration")

def closingName (tag : List Char) : List Char :=
  match dropLastGaps tag with
  | [] => tag
  | name => name

/-- The events of a text inside the opened elements, innermost first. -/
def eventsIn : Nat → List (List Char) → List Char → Except Flaw (List Event)
  | 0, _, _ => .ok []
  | fuel + 1, opened, cs =>
      match dropGaps cs with
      | [] => .ok []
      | '<' :: '!' :: rest => do
          return .aside :: (← eventsIn fuel opened (← afterBang rest))
      | '<' :: '?' :: rest => do
          let (body, rest) := splitAtAngle rest
          if 2 ≤ body.length && body.getLast? = some '?' then
            return .aside :: (← eventsIn fuel opened rest)
          else .error (.unfinished "a processing instruction")
      | '<' :: '/' :: rest => do
          let (tag, rest) := splitAtAngle rest
          match opened with
          | name :: opened =>
              if closingName tag = name then
                return .closing name :: (← eventsIn fuel opened rest)
              else .error (.unexpectedClosing (String.ofList (closingName tag)))
          | [] => .error (.unexpectedClosing (String.ofList (closingName tag)))
      | '<' :: rest => do
          match splitAtTagEnd none rest with
          | none => .ok []
          | some (tag, rest) =>
              if tag.getLast? = some '/' then return .aside :: (← eventsIn fuel opened rest)
              else
                let name := tag.takeWhile fun c => !isGap c
                return .opening name :: (← eventsIn fuel (name :: opened) rest)
      | cs => do
          let text := cs.takeWhile (· ≠ '<')
          return .text (dropLastGaps text) ::
            (← eventsIn fuel opened (cs.dropWhile (· ≠ '<')))

/-- The events of a text, which may start with a byte order mark. -/
def events (cs : List Char) : Except Flaw (List Event) :=
  let cs := match cs with
    | '\uFEFF' :: rest => rest
    | _ => cs
  eventsIn (cs.length + 1) [] cs

end Cookbook.Markup
