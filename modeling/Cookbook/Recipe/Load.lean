import Cookbook.Context
import Cookbook.Recipe.Descriptor
import Cookbook.Session

/-!
Reading the files of a recipe repository: the version table, the feed of published releases and the
recipes' descriptors. The feed is read when it is first needed, and never again after it was read
without failure.
-/

namespace Cookbook

def VersionTable.load (path : Path) : Action VersionTable := do
  if ← Action.isFile path then
    Action.ofExcept (VersionTable.read (← Action.readText path))
  else throw (.missingFile path)

namespace Context

def load (config : Config) : Action Context := do
  return { config, table := ← VersionTable.load config.versionTablePath }

def readFeed (context : Context) : Action Published := do
  let path := context.config.feed
  if ← Action.isFile path then
    Action.ofExcept (Feed.latest (← Action.readText path) context.table.keys)
  else throw (.missingFile path)

/-- The latest release of every mapped line that has one. -/
def published (context : Context) : Action Published := do
  match (← get).published with
  | some published => return published
  | none =>
      let published ← context.readFeed
      modify fun session => { session with published := some published }
      return published

def publishedRelease (context : Context) (line : ReleaseLine) : Action Release := do
  Action.ofExcept ((← context.published).release line)

def greatestRelease (context : Context) : Action Release := do
  match (← context.published).values with
  | [] => throw (.missingPublishedRelease none)
  | first :: rest => return rest.foldl (fun greatest release =>
      if (compare greatest release).isLE then release else greatest) first

end Context

namespace Descriptor

/-- Loads the descriptor of the recipe in a folder. The feed is only read if the least release is
given as a line. -/
def load (folder : Path) (context : Context) : Action Descriptor := do
  let path := folder.joinName fileName
  if ← Action.isFile path then
    let content ← Action.readText path
    let latest ← match lineToResolve? content with
      | some line => Action.attempt (context.publishedRelease line)
      | none => pure (.error (.missingPublishedRelease none))
    Action.ofExcept (parse content folder.name path fun _ => latest)
  else throw (.missingDescriptor path)

end Descriptor

end Cookbook
