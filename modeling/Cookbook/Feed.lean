import Cookbook.Failure
import Cookbook.Markup.Event
import Cookbook.Markup.Reference
import Cookbook.Release
import Cookbook.Text.Blank

/-!
The feed of published releases: a marked-up text that names them in `version` elements. Of the
releases that belong to a line the latest counts, and names that are no release are passed over.
-/

namespace Cookbook

abbrev Published := OrderedMap ReleaseLine Release

namespace Feed

/-- The texts in `version` elements. The flag says whether the events start inside of one. -/
def versionTexts : Bool → List Markup.Event → Except Markup.Flaw (List String)
  | _, [] => .ok []
  | inside, .opening name :: rest => versionTexts (inside || name = "version".toList) rest
  | inside, .closing name :: rest => versionTexts (inside && name ≠ "version".toList) rest
  | inside, .text chars :: rest =>
      if inside then do
        let text := String.ofList (Text.trimmed (← Markup.resolve chars))
        return text :: (← versionTexts inside rest)
      else versionTexts inside rest
  | inside, .aside :: rest => versionTexts inside rest

def versions (feed : String) : Except Failure (List String) :=
  match Markup.events feed.toList >>= versionTexts false with
  | .ok texts => .ok texts
  | .error flaw => .error (.malformedFeed flaw)

def later (release : Release) : Option Release → Release
  | some current => if compare current release = .lt then release else current
  | none => release

/-- Counts one published version towards the line it belongs to. -/
def note (lines : List ReleaseLine) (latest : Published) (version : String) : Published :=
  match lines.find? (·.covers version), Release.parse? version with
  | some line, some release => latest.alter line (later release)
  | _, _ => latest

def latestOf (lines : List ReleaseLine) (versions : List String) : Published :=
  versions.foldl (note lines) .empty

/-- The latest release of each of the lines that has one. -/
def latest (feed : String) (lines : List ReleaseLine) : Except Failure Published :=
  (versions feed).map (latestOf lines)

def latestNamed (feed query : String) : Except Failure (Option Release) :=
  match ReleaseLine.parse? query with
  | none => .error (.malformedLine query)
  | some line => (latest feed [line]).map (·.get? line)

end Feed

/-- Reads a release, or says that the text is none. -/
def Release.read (text : String) : Except Failure Release :=
  match parse? text with
  | some release => .ok release
  | none => .error (.malformedVersion text)

/-- Reads a release line, or says that the text is none. -/
def ReleaseLine.read (text : String) : Except Failure ReleaseLine :=
  match parse? text with
  | some line => .ok line
  | none => .error (.malformedVersion text)

def Published.release (published : Published) (line : ReleaseLine) : Except Failure Release :=
  match published.get? line with
  | some release => .ok release
  | none => .error (.missingPublishedRelease (some line))

end Cookbook
