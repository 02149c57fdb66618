import Cookbook.Feed
import Cookbook.Proofs.Text.Trimming

/-!
Well-formed documents and how they are written. A document is read as the contents of a feed: what
counts are its `version` elements, each with one version, and anything else may stand around them.
-/

namespace Cookbook.Markup

/-! ## Tags -/

structure Gaps where
  chars : List Char
  gaps : chars.all isGap = true := by decide

def isNameChar (c : Char) : Bool :=
  !isGap c && c ∉ ['<', '>', '/', '!', '?', '=', '"', '\'']

/-- A name of an element, an attribute or a processing instruction. -/
structure Name where
  chars : List Char
  nonempty : chars ≠ [] := by decide
  plain : chars.all isNameChar = true := by decide

inductive Quote
  | double
  | single

def Quote.char : Quote → Char
  | double => '"'
  | single => '\''

structure Attribute where
  before : Gaps
  apart : before.chars ≠ [] := by decide
  name : Name
  beforeSign : Gaps := ⟨[], rfl⟩
  afterSign : Gaps := ⟨[], rfl⟩
  quote : Quote := .double
  value : List Char
  closed : quote.char ∉ value := by decide

def Attribute.chars (a : Attribute) : List Char :=
  a.before.chars ++ a.name.chars ++ a.beforeSign.chars ++ ['='] ++ a.afterSign.chars ++
    (a.quote.char :: a.value ++ [a.quote.char])

/-- What stands between the angles of a tag that opens an element. -/
structure Tag where
  name : Name
  attributes : List Attribute := []
  gaps : Gaps := ⟨[], rfl⟩

def Tag.chars (tag : Tag) : List Char :=
  tag.name.chars ++ (tag.attributes.flatMap (·.chars) ++ tag.gaps.chars)

/-! ## Pieces that hold nothing for the feed -/

/-- Empty elements and everything that is no element. Each kind ends where its closing mark comes
first. -/
inductive Aside
  | empty (tag : Tag)
  | comment (body : List Char) (closed : ¬ ['-', '-'] <:+: body ++ ['-'])
  /-- The declaration at the start of a document is written like a processing instruction. -/
  | instruction (target : Name) (body : List Char) (apart : body.head?.all isGap = true)
      (closed : ¬ ['?', '>'] <:+: body)
  | quoted (body : List Char) (closed : ¬ [']', ']', '>'] <:+: body)
  /-- A document type without declarations of its own. -/
  | documentType (body : List Char) (named : body.all isGap = false)
      (plain : '<' ∉ body ∧ '>' ∉ body)

namespace Aside

def chars : Aside → List Char
  | empty tag => '<' :: tag.chars ++ ['/', '>']
  | comment body _ => ['<', '!', '-', '-'] ++ body ++ ['-', '-', '>']
  | instruction target body _ _ => ['<', '?'] ++ target.chars ++ body ++ ['?', '>']
  | quoted body _ => ['<', '!', '[', 'C', 'D', 'A', 'T', 'A', '['] ++ body ++ [']', ']', '>']
  | documentType body _ _ => ['<', '!', 'D', 'O', 'C', 'T', 'Y', 'P', 'E'] ++ body ++ ['>']

/-- Whether a reader that ends processing instructions at the first `>` reads it to its end. -/
def endsAtAngle : Aside → Bool
  | instruction _ body _ _ => !body.contains '>'
  | empty _ | comment _ _ | quoted _ _ | documentType _ _ _ => true

end Aside

/-- How a reader finds fault with an instruction that it does not read to its end. -/
def cutOff : Flaw := .unfinished "a processing instruction"

/-! ## Contents -/

/-- Characters between tags. -/
structure Run where
  chars : List Char
  plain : '<' ∉ chars := by decide

def escaped (c : Char) : List Char :=
  if c = '&' then ['&', 'a', 'm', 'p', ';']
  else if c = '<' then ['&', 'l', 't', ';']
  else if c = '>' then ['&', 'g', 't', ';']
  else if c = '"' then ['&', 'q', 'u', 'o', 't', ';']
  else if c = '\'' then ['&', 'a', 'p', 'o', 's', ';']
  else [c]

/-- The text of a version element: a version with its special characters escaped and blanks around. -/
structure Entry where
  before : List Char := []
  version : List Char
  after : List Char := []
  settled : Text.Settled version := by decide
  blankBefore : before.all Text.isBlank = true := by decide
  blankAfter : after.all Text.isBlank = true := by decide

def Entry.chars (entry : Entry) : List Char :=
  entry.before ++ entry.version.flatMap escaped ++ entry.after

def versionName : Name where
  chars := "version".toList

/-- What stands in an element or in a whole document, piece by piece. Text comes before each piece and
at the end. -/
inductive Content
  | last (text : Run)
  | beside (text : Run) (aside : Aside) (rest : Content)
  | element (text : Run) (tag : Tag) (other : tag.name.chars ≠ versionName.chars)
      (inside : Content) (gaps : Gaps) (rest : Content)
  | version (text : Run) (attributes : List Attribute) (gaps : Gaps) (entry : Entry)
      (closingGaps : Gaps) (rest : Content)

def opening (tag : Tag) : List Char := '<' :: tag.chars ++ ['>']

def closing (name : Name) (gaps : Gaps) : List Char := ['<', '/'] ++ name.chars ++ gaps.chars ++ ['>']

/-- The event that a text gives, if it is more than gaps. -/
def textEvents (cs : List Char) : List Event :=
  if dropGaps cs = [] then [] else [.text (dropLastGaps (dropGaps cs))]

namespace Content

def chars : Content → List Char
  | last text => text.chars
  | beside text aside rest => text.chars ++ aside.chars ++ rest.chars
  | element text tag _ inside gaps rest =>
      text.chars ++ opening tag ++ inside.chars ++ closing tag.name gaps ++ rest.chars
  | version text attributes gaps entry closingGaps rest =>
      text.chars ++ opening ⟨versionName, attributes, gaps⟩ ++ entry.chars ++
        closing versionName closingGaps ++ rest.chars

/-- The events of the pieces, in order. -/
def events : Content → List Event
  | last text => textEvents text.chars
  | beside text _ rest => textEvents text.chars ++ .aside :: rest.events
  | element text tag _ inside _ rest =>
      textEvents text.chars ++
        .opening tag.name.chars :: (inside.events ++ .closing tag.name.chars :: rest.events)
  | version text _ _ entry _ rest =>
      textEvents text.chars ++ .opening versionName.chars ::
        (textEvents entry.chars ++ .closing versionName.chars :: rest.events)

/-- The versions in the order of their elements. -/
def versions : Content → List String
  | last _ => []
  | beside _ _ rest => rest.versions
  | element _ _ _ inside _ rest => inside.versions ++ rest.versions
  | version _ _ _ entry _ rest => String.ofList entry.version :: rest.versions

def endsAtAngle : Content → Bool
  | last _ => true
  | beside _ aside rest => aside.endsAtAngle && rest.endsAtAngle
  | element _ _ _ inside _ rest => inside.endsAtAngle && rest.endsAtAngle
  | version _ _ _ _ _ rest => rest.endsAtAngle

end Content

structure Document where
  /-- Whether the document starts with a byte order mark. -/
  marked : Bool := false
  content : Content
  unmarked : content.chars.head? ≠ some '\uFEFF' := by decide

namespace Document

def chars (document : Document) : List Char :=
  if document.marked then '\uFEFF' :: document.content.chars else document.content.chars

def text (document : Document) : String := String.ofList document.chars

def versions (document : Document) : List String := document.content.versions

def endsAtAngle (document : Document) : Bool := document.content.endsAtAngle

end Document

end Cookbook.Markup
