import Cookbook.Index
import Cookbook.Proofs.OrderedMap
import Cookbook.Proofs.Recipe.Load
import Cookbook.Proofs.Text.Bytes
import Cookbook.Proofs.Text.Lines
import Mathlib.Data.List.Forall2
import Mathlib.Data.List.Induction
import Mathlib.Data.List.Nodup

/-!
# The index of recipes

`Index.sections_occurrences`: an index shows each category and each keyword that occurs in the recipes
that were added, and under a keyword one link for each of its occurrences, as they were added. Nothing
but that order depends on the order of the recipes.
-/

namespace Cookbook

/-! ## Keywords -/

namespace Keyword

/-- What a text names as a keyword: the category before its slash and the name after it. A text without a
slash names one of the others. -/
def ofText (text : String) : Keyword :=
  if '/' ∈ text.toList then
    ⟨String.ofList (text.toList.takeWhile (· ≠ '/')),
      String.ofList ((text.toList.dropWhile (· ≠ '/')).drop 1)⟩
  else ⟨"Others", text⟩

theorem ofText_bare {text : String} (bare : '/' ∉ text.toList) : ofText text = ⟨"Others", text⟩ :=
  if_neg bare

theorem ofText_filed {category name : String} (single : '/' ∉ category.toList) :
    ofText (category ++ "/" ++ name) = ⟨category, name⟩ := by
  have chars : (category ++ "/" ++ name).toList = category.toList ++ '/' :: name.toList := by simp
  have all := Text.all_ne_of_notMem single
  rw [ofText, chars, if_pos (by simp), List.takeWhile_append_of_pos (List.all_eq_true.mp all),
    List.dropWhile_append_of_pos (List.all_eq_true.mp all)]
  simp

theorem ofText_of_parse? {text : String} {keyword : Keyword} (parsed : parse? text = some keyword) :
    keyword = ofText text := by
  unfold parse? at parsed
  rcases split : Text.fields '/' text.toList with _ | ⟨first, _ | ⟨second, _ | ⟨third, rest⟩⟩⟩
  · rw [split] at parsed
    cases parsed
  · rw [split] at parsed
    cases parsed
    have bare : '/' ∉ first := Text.notMem_of_mem_fields (by rw [split]; simp)
    obtain rfl := Text.eq_of_fields split
    rw [ofText_bare bare, String.ofList_toList]
    rfl
  · rw [split] at parsed
    cases parsed
    have single : '/' ∉ first := Text.notMem_of_mem_fields (by rw [split]; simp)
    obtain ⟨back, whole, last⟩ := Text.eq_append_of_fields split
    obtain rfl := Text.eq_of_fields last
    have filed : text = String.ofList first ++ "/" ++ String.ofList back := by
      rw [← String.toList_inj, whole]
      simp
    rw [filed, ofText_filed (by simpa using single)]
  · rw [split] at parsed
    cases parsed

end Keyword

/-- That a descriptor is one that is read from some content. -/
def Descriptor.Accepted (descriptor : Descriptor) : Prop :=
  ∃ content folderName path lookup, parse content folderName path lookup = .ok descriptor

theorem Descriptor.Accepted.parse?_keyword {descriptor : Descriptor} (accepted : descriptor.Accepted)
    {text : String} (member : text ∈ descriptor.keywords) :
    Keyword.parse? text = some (Keyword.ofText text) := by
  obtain ⟨content, folderName, path, lookup, parsed⟩ := accepted
  obtain ⟨metadata, _, -, -, -, -, -, checked, made⟩ := parse_eq_ok parsed
  rw [made] at member
  unfold checkKeywords at checked
  split at checked
  · cases checked
  · next sound =>
      have some_ := List.find?_eq_none.mp sound text member
      rw [Option.isNone_iff_eq_none] at some_
      obtain ⟨keyword, read⟩ := Option.ne_none_iff_exists'.mp some_
      rw [read, Keyword.ofText_of_parse? read]

/-! ## Occurrences of keywords -/

namespace Index

/-- The occurrences of keywords in descriptors, each with a link to its recipe. -/
def occurrences (descriptors : List Descriptor) : List (Keyword × Link) :=
  descriptors.flatMap fun descriptor => descriptor.keywords.map fun text =>
    (Keyword.ofText text, ⟨descriptor.title, descriptor.destination⟩)

/-- The links of the occurrences of a keyword. -/
def linksOf (occurrences : List (Keyword × Link)) (keyword : Keyword) : List Link :=
  (occurrences.filter (·.1 = keyword)).map (·.2)

def ofRecipes (descriptors : List Descriptor) : Index := descriptors.foldl add .empty

def addAll (index : Index) (occurrences : List (Keyword × Link)) : Index :=
  occurrences.foldl (fun index (keyword, link) => index.addLink keyword link) index

theorem add_eq {descriptor : Descriptor} (accepted : descriptor.Accepted) (index : Index) :
    index.add descriptor = index.addAll (occurrences [descriptor]) := by
  have parsed : descriptor.keywords.filterMap Keyword.parse? = descriptor.keywords.map Keyword.ofText := by
    rw [← List.filterMap_eq_map]
    exact List.filterMap_congr fun text member => accepted.parse?_keyword member
  rw [add, parsed, addAll, occurrences, List.flatMap_singleton, List.foldl_map, List.foldl_map]

theorem ofRecipes_eq {descriptors : List Descriptor}
    (accepted : ∀ descriptor ∈ descriptors, descriptor.Accepted) :
    ofRecipes descriptors = addAll .empty (occurrences descriptors) := by
  have run (index : Index) : descriptors.foldl add index = index.addAll (occurrences descriptors) := by
    induction descriptors generalizing index with
    | nil => rfl
    | cons descriptor descriptors ih =>
        obtain ⟨first, rest⟩ := List.forall_mem_cons.mp accepted
        rw [List.foldl_cons, ih rest, add_eq first, addAll, addAll, addAll, ← List.foldl_append]
        simp [occurrences]
  exact run .empty

/-! ## What an index holds -/

section Holding

variable {index : Index} {occurring : List (Keyword × Link)} {keyword wanted : Keyword} {link : Link}
  {category name : String}

/-- The links that the index holds for a keyword. -/
def links? (index : Index) (keyword : Keyword) : Option (List Link) :=
  (index.get? keyword.category).bind (·.get? keyword.name)

theorem get?_addLink_eq_none : (index.addLink keyword link).get? category = none ↔
    index.get? category = none ∧ category ≠ keyword.category := by
  rw [addLink, OrderedMap.get?_alter]
  by_cases same : category = keyword.category
  · simp [same]
  · simp [same]

theorem links?_addLink : (index.addLink keyword link).links? wanted =
    if wanted = keyword then some ((index.links? keyword).getD [] ++ [link])
    else index.links? wanted := by
  obtain ⟨category, name⟩ := wanted
  obtain ⟨filed, named⟩ := keyword
  simp only [links?, addLink, OrderedMap.get?_alter, Keyword.mk.injEq]
  by_cases sameCategory : category = filed
  · subst sameCategory
    rw [if_pos rfl, Option.bind_some, OrderedMap.get?_alter]
    -- A category that is new has no names yet.
    have held (name : String) : ((index.get? category).getD .empty).get? name =
        (index.get? category).bind (·.get? name) := by
      cases index.get? category <;> rfl
    rw [held, held]
    simp only [true_and]
  · rw [if_neg sameCategory, if_neg fun both => sameCategory both.1]

theorem linksOf_concat (occurring : List (Keyword × Link)) (keyword wanted : Keyword) (link : Link) :
    linksOf (occurring ++ [(keyword, link)]) wanted =
      linksOf occurring wanted ++ if wanted = keyword then [link] else [] := by
  rw [linksOf, linksOf, List.filter_append, List.map_append, List.filter_singleton]
  by_cases same : wanted = keyword
  · simp [same]
  · simp [same, Ne.symm same]

theorem linksOf_eq_nil : linksOf occurring keyword = [] ↔ keyword ∉ occurring.map (·.1) := by
  simp only [linksOf, List.map_eq_nil_iff, List.filter_eq_nil_iff, decide_eq_true_iff, List.mem_map,
    not_exists, not_and]

theorem addAll_concat : index.addAll (occurring ++ [(keyword, link)]) =
    (index.addAll occurring).addLink keyword link := by
  rw [addAll, List.foldl_append]
  rfl

/-- An index holds for each keyword the links of its occurrences, in their order. -/
theorem links?_addAll (occurring : List (Keyword × Link)) (wanted : Keyword) :
    (addAll .empty occurring).links? wanted =
      if linksOf occurring wanted = [] then none else some (linksOf occurring wanted) := by
  induction occurring using List.reverseRecOn with
  | nil => rfl
  | append_singleton occurring last ih =>
      obtain ⟨keyword, link⟩ := last
      rw [addAll_concat, links?_addLink, linksOf_concat]
      by_cases same : wanted = keyword
      · subst same
        have before : ((addAll .empty occurring).links? wanted).getD [] = linksOf occurring wanted := by
          rw [ih]
          split
          · next absent => exact absent.symm
          · rfl
        simp [before]
      · simpa [same] using ih

theorem get?_addAll_eq_none : (addAll .empty occurring).get? category = none ↔
    category ∉ occurring.map (·.1.category) := by
  induction occurring using List.reverseRecOn with
  | nil => exact iff_of_true rfl List.not_mem_nil
  | append_singleton occurring last ih =>
      obtain ⟨keyword, link⟩ := last
      rw [addAll_concat, get?_addLink_eq_none, ih, List.map_append, List.mem_append, not_or]
      simp

theorem get?_names {names : OrderedMap String (List Link)}
    (found : (addAll .empty occurring).get? category = some names) (name : String) :
    names.get? name = if linksOf occurring ⟨category, name⟩ = [] then none
      else some (linksOf occurring ⟨category, name⟩) := by
  rw [← links?_addAll, links?, found, Option.bind_some]

theorem get?_names_eq_none {names : OrderedMap String (List Link)}
    (found : (addAll .empty occurring).get? category = some names) :
    names.get? name = none ↔ ⟨category, name⟩ ∉ occurring.map (·.1) := by
  rw [get?_names found, ← linksOf_eq_nil]
  split <;> simp_all

theorem entries_names {names : OrderedMap String (List Link)}
    (found : (addAll .empty occurring).get? category = some names) :
    names.entries = names.keys.map fun name => (name, linksOf occurring ⟨category, name⟩) := by
  refine names.entries_eq fun name there => ?_
  rw [get?_names found] at there ⊢
  split at there
  · exact absurd rfl there
  · next some_ => rw [if_neg some_]

end Holding

/-! ## Sections -/

/-- What an index shows of a category: its keywords, each with its links. -/
structure Section where
  category : String
  rows : List (String × List Link)
deriving DecidableEq

def Section.lines (shown : Section) : List String :=
  ("## " ++ shown.category) :: shown.rows.map fun (name, links) =>
    "* " ++ name ++ " - " ++
      String.intercalate ", " (links.map fun link => "[" ++ link.title ++ "](" ++ link.folder ++ ")")

def sections (index : Index) : List Section :=
  index.categories.map fun category => ⟨category, (index.get? category).elim [] (·.entries)⟩

/-- That sections show all occurrences of keywords and nothing else, in the order of indexes. -/
structure Shows (sections : List Section) (occurring : List (Keyword × Link)) : Prop where
  once : (sections.map (·.category)).Nodup
  categories : ∀ category,
    category ∈ sections.map (·.category) ↔ category ∈ occurring.map (·.1.category)
  ordered : ∃ others, sections.map (·.category) =
      ["Themes", "APIs", "Call chains"].filter (· ∈ occurring.map (·.1.category)) ++ others ∧
    (∀ category ∈ others, category ∉ ["Themes", "APIs", "Call chains"]) ∧
    others.Pairwise fun a b => Text.bytes a < Text.bytes b
  names : ∀ shown ∈ sections, ∀ name,
    name ∈ shown.rows.map (·.1) ↔ ⟨shown.category, name⟩ ∈ occurring.map (·.1)
  ascending : ∀ shown ∈ sections,
    (shown.rows.map (·.1)).Pairwise fun a b => Text.bytes a < Text.bytes b
  links : ∀ shown ∈ sections, ∀ row ∈ shown.rows, row.2 = linksOf occurring ⟨shown.category, row.1⟩

/-- That sections differ at most in the order of links to the keywords. -/
structure Section.Agree (shown other : Section) : Prop where
  category : shown.category = other.category
  rows : List.Forall₂ (fun row row' => row.1 = row'.1 ∧ row.2.Perm row'.2) shown.rows other.rows

section Showing

variable {index : Index} {occurring others : List (Keyword × Link)} {category : String}

theorem mem_categories : category ∈ index.categories ↔ index.get? category ≠ none := by
  have contains : index.contains category = true ↔ index.get? category ≠ none := Option.isSome_iff_ne_none
  simp only [categories, List.mem_append, List.mem_filter, contains, OrderedMap.mem_keys_iff,
    List.contains_eq_mem, Bool.not_eq_true', decide_eq_false_iff_not]
  by_cases leading : category ∈ leadingCategories <;> simp [leading]

theorem map_category_sections (index : Index) : index.sections.map (·.category) = index.categories := by
  rw [sections, List.map_map]
  exact List.map_id _

theorem render_eq (index : Index) (release : Option Release) : index.render release =
    Text.unlines (headerLines release ++ introductionLines ++ index.sections.flatMap Section.lines ++
      footerLines) := by
  have same : index.categories.flatMap index.categoryLines = index.sections.flatMap Section.lines := by
    rw [sections, List.flatMap_map]
    refine List.flatMap_congr fun category member => ?_
    obtain ⟨names, found⟩ := Option.ne_none_iff_exists'.mp (mem_categories.mp member)
    rw [categoryLines, found]
    rfl
  rw [render, same]

theorem names_of_mem_sections {shown : Section} (member : shown ∈ index.sections) :
    ∃ names, index.get? shown.category = some names ∧ shown.rows = names.entries := by
  obtain ⟨category, listed, rfl⟩ := List.mem_map.mp member
  obtain ⟨names, found⟩ := Option.ne_none_iff_exists'.mp (mem_categories.mp listed)
  exact ⟨names, found, by rw [found]; rfl⟩

theorem bytes_pairwise_keys {ν : Type} (map : OrderedMap String ν) :
    map.keys.Pairwise fun a b => Text.bytes a < Text.bytes b :=
  map.keys_pairwise.imp fun less => Text.bytes_lt_iff.mpr (compare_lt_iff_lt.mp less)

theorem nodup_categories (index : Index) : index.categories.Nodup := by
  have keys : index.keys.Nodup := index.keys_pairwise.imp OrderedMap.ne_of_less
  refine List.nodup_append.mpr ⟨List.Nodup.filter _ (by decide), keys.filter _, ?_⟩
  rintro category first _ second rfl
  have leading := (List.mem_filter.mp first).1
  have trailing := (List.mem_filter.mp second).2
  simp [leading] at trailing

theorem mem_categories_addAll : category ∈ (addAll .empty occurring).categories ↔
    category ∈ occurring.map (·.1.category) := by
  rw [mem_categories, ne_eq, get?_addAll_eq_none, not_not]

theorem shows_sections (occurring : List (Keyword × Link)) :
    Shows (addAll .empty occurring).sections occurring where
  once := by
    rw [map_category_sections]
    exact nodup_categories _
  categories category := by rw [map_category_sections, mem_categories_addAll]
  ordered := by
    refine ⟨(addAll .empty occurring).keys.filter fun category => !leadingCategories.contains category,
      ?_, ?_, (bytes_pairwise_keys _).filter _⟩
    · rw [map_category_sections, Index.categories]
      refine congrArg (· ++ _) (List.filter_congr fun category _ => ?_)
      rw [Bool.eq_iff_iff, decide_eq_true_iff, ← mem_categories_addAll, mem_categories]
      exact Option.isSome_iff_ne_none
    · intro category member
      simpa [leadingCategories] using (List.mem_filter.mp member).2
  names shown member name := by
    obtain ⟨names, found, rows⟩ := names_of_mem_sections member
    rw [rows]
    show name ∈ names.keys ↔ _
    rw [OrderedMap.mem_keys_iff, ne_eq, get?_names_eq_none found, not_not]
  ascending shown member := by
    obtain ⟨names, found, rows⟩ := names_of_mem_sections member
    rw [rows]
    exact bytes_pairwise_keys names
  links shown member row inside := by
    obtain ⟨names, found, rows⟩ := names_of_mem_sections member
    rw [rows, entries_names found] at inside
    obtain ⟨name, -, rfl⟩ := List.mem_map.mp inside
    rfl

theorem linksOf_perm (perm : occurring.Perm others) (keyword : Keyword) :
    (linksOf occurring keyword).Perm (linksOf others keyword) :=
  (perm.filter _).map _

theorem categories_addAll_of_perm (perm : occurring.Perm others) :
    (addAll .empty occurring).categories = (addAll .empty others).categories := by
  have same (category : String) : (addAll .empty occurring).get? category = none ↔
      (addAll .empty others).get? category = none := by
    rw [get?_addAll_eq_none, get?_addAll_eq_none, (perm.map _).mem_iff]
  have contains : (addAll .empty occurring).contains = (addAll .empty others).contains := by
    funext category
    rw [OrderedMap.contains, OrderedMap.contains, Bool.eq_iff_iff, Option.isSome_iff_ne_none,
      Option.isSome_iff_ne_none, ne_eq, ne_eq, same]
  rw [categories, categories, contains, OrderedMap.keys_eq same]

theorem sections_addAll_of_perm (perm : occurring.Perm others) :
    List.Forall₂ Section.Agree (addAll .empty occurring).sections (addAll .empty others).sections := by
  rw [sections, sections, ← categories_addAll_of_perm perm, List.forall₂_map_left_iff,
    List.forall₂_map_right_iff, List.forall₂_same]
  intro category member
  have listed : category ∈ (addAll .empty others).categories := categories_addAll_of_perm perm ▸ member
  obtain ⟨names, found⟩ := Option.ne_none_iff_exists'.mp (mem_categories.mp member)
  obtain ⟨names', found'⟩ := Option.ne_none_iff_exists'.mp (mem_categories.mp listed)
  have keys : names.keys = names'.keys := OrderedMap.keys_eq fun name => by
    rw [get?_names_eq_none found, get?_names_eq_none found', (perm.map _).mem_iff]
  refine ⟨rfl, ?_⟩
  rw [found, found']
  show List.Forall₂ _ names.entries names'.entries
  rw [entries_names found, entries_names found', keys, List.forall₂_map_left_iff,
    List.forall₂_map_right_iff, List.forall₂_same]
  exact fun name _ => ⟨rfl, linksOf_perm perm _⟩

end Showing

/-- An index of recipes with accepted descriptors is written as its sections, which show all occurrences
of their keywords, none of which is ignored. If the recipes are added in another order, it is written with
the links to each keyword in another order. -/
theorem sections_occurrences {descriptors : List Descriptor}
    (accepted : ∀ descriptor ∈ descriptors, descriptor.Accepted) :
    (∀ descriptor ∈ descriptors, ∀ text ∈ descriptor.keywords,
      Keyword.parse? text = some (Keyword.ofText text)) ∧
    (ofRecipes descriptors).categories = (ofRecipes descriptors).sections.map (·.category) ∧
    (∀ release, (ofRecipes descriptors).render release =
      Text.unlines (headerLines release ++ introductionLines ++
        (ofRecipes descriptors).sections.flatMap Section.lines ++ footerLines)) ∧
    Shows (ofRecipes descriptors).sections (occurrences descriptors) ∧
    ∀ others, descriptors.Perm others →
      List.Forall₂ Section.Agree (ofRecipes descriptors).sections (ofRecipes others).sections := by
  refine ⟨fun descriptor member text => (accepted descriptor member).parse?_keyword,
    (map_category_sections _).symm, render_eq _, ?_, fun others perm => ?_⟩
  · rw [ofRecipes_eq accepted]
    exact shows_sections _
  · rw [ofRecipes_eq accepted, ofRecipes_eq fun descriptor member => accepted _ (perm.mem_iff.mpr member)]
    exact sections_addAll_of_perm (perm.flatMap_right _)

def sampleMetadata (keywords : String) : String :=
  "[agpVersion]\nmin = \"8.1.0\"\n[indexMetadata]\nindex = [" ++ keywords ++ "]\n"

def sampleRecipe (name : String) (keywords : List String) : Descriptor :=
  ⟨name, name, name, ⟨8, 1, 0, .final, 0⟩, none, [], none, keywords⟩

def sampleRecipes : List Descriptor :=
  [sampleRecipe "a" ["zeta", "APIs/onVariants", "Themes/"], sampleRecipe "b" ["Build/y", "APIs/onVariants"]]

theorem sampleRecipes_accepted : ∀ descriptor ∈ sampleRecipes, descriptor.Accepted := by
  have latest (line : ReleaseLine) : Except Failure Release := .ok ⟨line.major, line.minor, 0, .final, 0⟩
  have first : (sampleRecipe "a" ["zeta", "APIs/onVariants", "Themes/"]).Accepted :=
    ⟨sampleMetadata "\"zeta\", \"APIs/onVariants\", \"Themes/\"", "a", ⟨""⟩, latest, rfl⟩
  have second : (sampleRecipe "b" ["Build/y", "APIs/onVariants"]).Accepted :=
    ⟨sampleMetadata "\"Build/y\", \"APIs/onVariants\"", "b", ⟨""⟩, latest, rfl⟩
  exact List.forall_mem_cons.mpr ⟨first, List.forall_mem_singleton.mpr second⟩

theorem sections_occurrences_sampleRecipes :
    (ofRecipes sampleRecipes).categories = ["Themes", "APIs", "Build", "Others"] ∧
    (ofRecipes sampleRecipes).render none = Text.unlines (headerLines none ++ introductionLines ++
      ["## Themes", "*  - [a](a)", "## APIs", "* onVariants - [a](a), [b](b)", "## Build", "* y - [b](b)",
        "## Others", "* zeta - [a](a)"] ++ footerLines) ∧
    Shows (ofRecipes sampleRecipes).sections (occurrences sampleRecipes) ∧
    List.Forall₂ Section.Agree (ofRecipes sampleRecipes).sections
      (ofRecipes sampleRecipes.reverse).sections := by
  obtain ⟨-, listed, written, shows_, agree⟩ := sections_occurrences sampleRecipes_accepted
  have sections : (ofRecipes sampleRecipes).sections = [⟨"Themes", [("", [⟨"a", "a"⟩])]⟩,
      ⟨"APIs", [("onVariants", [⟨"a", "a"⟩, ⟨"b", "b"⟩])]⟩, ⟨"Build", [("y", [⟨"b", "b"⟩])]⟩,
      ⟨"Others", [("zeta", [⟨"a", "a"⟩])]⟩] := by decide +kernel
  refine ⟨?_, ?_, shows_, agree _ (List.reverse_perm _).symm⟩
  · rw [listed, sections]
    rfl
  · rw [written, sections]
    rfl

end Index
end Cookbook
