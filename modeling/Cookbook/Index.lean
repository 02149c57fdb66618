import Cookbook.Recipe.Descriptor

/-!
The index of converted recipes: their keywords by category, each with links to the recipes listed
under it. Some categories come first; the others follow in order.
-/

namespace Cookbook

structure Link where
  title : String
  folder : String
deriving DecidableEq, Repr

abbrev Index := OrderedMap String (OrderedMap String (List Link))

namespace Index

def fileName : String := "README.md"

def leadingCategories : List String := ["Themes", "APIs", "Call chains"]

def addLink (index : Index) (keyword : Keyword) (link : Link) : Index :=
  index.alter keyword.category fun names =>
    (names.getD .empty).alter keyword.name fun links => links.getD [] ++ [link]

def add (index : Index) (descriptor : Descriptor) : Index :=
  (descriptor.keywords.filterMap Keyword.parse?).foldl (fun index keyword =>
    index.addLink keyword ⟨descriptor.title, descriptor.destination⟩) index

def categories (index : Index) : List String :=
  leadingCategories.filter index.contains ++
    index.keys.filter fun category => !leadingCategories.contains category

def Link.text (link : Link) : String := "[" ++ link.title ++ "](" ++ link.folder ++ ")"

def keywordLine (name : String) (links : List Link) : String :=
  "* " ++ name ++ " - " ++ String.intercalate ", " (links.map Link.text)

def categoryLines (index : Index) (category : String) : List String :=
  match index.get? category with
  | none => []
  | some names =>
      ("## " ++ category) :: names.entries.map fun (name, links) => keywordLine name links

/-- The lines above the index, which name the release it is for, if any. -/
def headerLines : Option Release → List String
  | none => ["# Recipes"]
  | some release => [
      "# Recipes for AGP version `" ++ release.text ++ "`",
      "This branch contains recipes compatible with AGP " ++ release.text ++
        ". If you want to find recipes",
      "for other AGP versions, switch to the corresponding `agp-*` branch.",
      "",
      "This branch is read only. Contributions are only accepted on the `studio-main` branch. " ++
        "See `CONTRIBUTION.md`",
      "there."]

def introductionLines : List String := [
  "# Recipes Index",
  "Index is organized in categories, offering different ways to reach the recipe you want."]

def footerLines : List String := [
  "# License",
  "```",
  "Copyright 2022 The Android Open Source Project",
  "",
  "Licensed under the Apache License, Version 2.0 (the \"License\");",
  "you may not use this file except in compliance with the License.",
  "You may obtain a copy of the License at",
  "",
  "    https://www.apache.org/licenses/LICENSE-2.0",
  "",
  "Unless required by applicable law or agreed to in writing, software",
  "distributed under the License is distributed on an \"AS IS\" BASIS,",
  "WITHOUT WARRANTIES OR CONDITIONS OF ANY KIND, either express or implied.",
  "See the License for the specific language governing permissions and",
  "limitations under the License.",
  "```"]

def render (index : Index) (release : Option Release) : String :=
  Text.unlines (headerLines release ++ introductionLines ++
    index.categories.flatMap index.categoryLines ++ footerLines)

end Index

end Cookbook
