import Cookbook.Proofs.Release
import Cookbook.Proofs.Toml.Layout

/-!
Metadata files written from what they are to say, and the descriptors that are read from them.
-/

namespace Cookbook

/-! ## Keywords -/

theorem Text.length_fields (separator : Char) (cs : List Char) :
    (fields separator cs).length = cs.count separator + 1 := by
  induction cs with
  | nil => rfl
  | cons c cs ih =>
      by_cases same : c = separator
      · rw [same, fields_self, List.length_cons, ih, List.count_cons_self]
      · rw [List.count_cons_of_ne same, ← ih]
        obtain ⟨field, rest, parts⟩ := List.exists_cons_of_ne_nil (fields_ne_nil separator cs)
        rw [fields, if_neg same, parts]
        rfl

theorem Keyword.isSome_parse? {text : String} (few : text.toList.count '/' ≤ 1) :
    (parse? text).isSome = true := by
  have pieces := Text.length_fields '/' text.toList
  rcases parts : Text.fields '/' text.toList with _ | ⟨first, _ | ⟨second, _ | ⟨third, more⟩⟩⟩
  · exact absurd parts (Text.fields_ne_nil _ _)
  · simp [parse?, parts]
  · simp [parse?, parts]
  · simp only [parts, List.length_cons] at pieces
    omega

/-! ## Drafts -/

/-- What a recipe's metadata are to say. -/
structure Draft where
  minimum : Release
  maximum : Option ReleaseLine
  title : Option String
  destination : Option String
  tasks : List String
  validationTasks : Option (List String)
  keywords : List String

namespace Draft

open Toml (Bare Field Layout Literal Section)

variable (draft : Draft)

def versionFields : List Field :=
  ⟨"min", .text draft.minimum.text, by decide⟩ ::
    (draft.maximum.map fun line => ⟨"max", .text line.text, by decide⟩).toList

def taskFields : List Field :=
  ⟨"tasks", .list draft.tasks, by decide⟩ ::
    (draft.validationTasks.map fun tasks => ⟨"validationTasks", .list tasks, by decide⟩).toList

def layout : Layout where
  fields :=
    (draft.title.map fun title => ⟨"indexName", .text title, by decide⟩).toList ++
      (draft.destination.map fun name => ⟨"destinationFolder", .text name, by decide⟩).toList
  sections := [
    ⟨"agpVersion", draft.versionFields, by decide⟩,
    ⟨"gradleTasks", draft.taskFields, by decide⟩,
    ⟨"indexMetadata", [⟨"index", .list draft.keywords, by decide⟩], by decide⟩]

/-- The metadata file. -/
def content : String := String.ofList draft.layout.chars

theorem layout_distinct : draft.layout.Distinct where
  top := by cases title : draft.title <;> cases destination : draft.destination <;>
    simp [layout, title, destination]
  inner part member := by
    simp only [layout, List.mem_cons, List.not_mem_nil, or_false] at member
    rcases member with rfl | rfl | rfl
    · cases maximum : draft.maximum <;> simp [versionFields, maximum]
    · cases tasks : draft.validationTasks <;> simp [taskFields, tasks]
    · simp

/-- The metadata that are read from the file. -/
def metadata : Metadata where
  minimum := some draft.minimum.text
  maximum := draft.maximum.map (·.text)
  destination := draft.destination
  title := draft.title
  tasks := draft.tasks
  validationTasks := draft.validationTasks
  keywords := draft.keywords

theorem optional_text (key : String) (given : Option String) :
    Metadata.optional (Metadata.text key) (given.map .string) = .ok given := by
  cases given <;> rfl

theorem texts_strings (key : String) (texts : List String) :
    Metadata.texts key (.array false (texts.map .string)) = .ok texts := by
  have each : (texts.map Toml.Value.string).mapM (Metadata.text key) = .ok texts := by
    induction texts with
    | nil => rfl
    | cons text texts ih => 
        rw [List.map_cons, List.mapM_cons, ih]
        rfl
  exact each

theorem optional_texts (key : String) (given : Option (List String)) :
    Metadata.optional (Metadata.texts key) (given.map fun texts => .array false (texts.map .string)) =
      .ok given := by
  cases given with
  | none => rfl
  | some texts =>
      rw [Option.map_some, Metadata.optional, texts_strings]
      rfl

theorem get?_entries :
    draft.layout.entries.get? "agpVersion" = some (.table .header (draft.versionFields.map Field.entry)) ∧
    draft.layout.entries.get? "gradleTasks" = some (.table .header (draft.taskFields.map Field.entry)) ∧
    draft.layout.entries.get? "indexMetadata" =
      some (.table .header [("index", .array false (draft.keywords.map .string))]) ∧
    draft.layout.entries.get? "destinationFolder" = draft.destination.map .string ∧
    draft.layout.entries.get? "indexName" = draft.title.map .string := by
  cases title : draft.title <;> cases destination : draft.destination <;>
    simp [layout, Layout.entries, Toml.Entries.get?, Field.entry, Section.entry, Literal.value,
      List.lookup_cons, title, destination]

theorem get?_versionFields :
    Toml.Entries.get? (draft.versionFields.map Field.entry) "min" = some (.string draft.minimum.text) ∧
    Toml.Entries.get? (draft.versionFields.map Field.entry) "max" =
      (draft.maximum.map (·.text)).map .string := by
  cases maximum : draft.maximum <;>
    simp [versionFields, Toml.Entries.get?, Field.entry, Literal.value, List.lookup_cons, maximum]

theorem get?_taskFields :
    Toml.Entries.get? (draft.taskFields.map Field.entry) "tasks" =
      some (.array false (draft.tasks.map .string)) ∧
    Toml.Entries.get? (draft.taskFields.map Field.entry) "validationTasks" =
      draft.validationTasks.map fun tasks => .array false (tasks.map .string) := by
  cases tasks : draft.validationTasks <;>
    simp [taskFields, Toml.Entries.get?, Field.entry, Literal.value, List.lookup_cons, tasks]

theorem read_content : Metadata.read draft.content = .ok draft.metadata := by
  obtain ⟨version, tasks, index, destination, title⟩ := draft.get?_entries
  obtain ⟨minimum, maximum⟩ := draft.get?_versionFields
  obtain ⟨always, validating⟩ := draft.get?_taskFields
  rw [Metadata.read, content, Toml.read_layout draft.layout_distinct]
  have index_ : Toml.Entries.get? [("index", .array false (draft.keywords.map .string))] "index" =
      some (.array false (draft.keywords.map .string)) := rfl
  simp only [bind, Except.bind, Metadata.ofEntries, version, tasks, index, destination, title,
    Metadata.sectionFields, List.map_cons, List.map_nil, minimum, maximum, always, validating, index_,
    Metadata.field, List.getElem?_cons_zero, List.getElem?_cons_succ, Option.join_some,
    optional_text, optional_texts]
  simp only [Metadata.optional, Metadata.text, texts_strings, Except.map]
  rfl

/-! ## Descriptors -/

/-- The given text without the blanks around it, or the folder's name if nothing else was given. -/
def orFolder (folderName : String) : Option String → String
  | none => folderName
  | some text => if text.toList.all Text.isBlank then folderName else Text.trim text

theorem getD_nonBlank? (folderName : String) (given : Option String) :
    (given.bind Text.nonBlank?).getD folderName = orFolder folderName given := by
  cases given with
  | none => rfl
  | some text =>
      rw [Option.bind_some, Text.nonBlank?, orFolder]
      by_cases blank : text.toList.all Text.isBlank = true
      · rw [if_pos (Text.trimmed_eq_nil.mpr blank), if_pos blank, Option.getD_none]
      · rw [if_neg (mt Text.trimmed_eq_nil.mp blank), if_neg blank, Option.getD_some]

/-- What a draft says for a recipe in a folder of the given name. -/
def descriptor (folderName : String) : Descriptor where
  folderName := folderName
  title := orFolder folderName draft.title
  destination := orFolder folderName draft.destination
  minimum := draft.minimum
  maximum := draft.maximum
  tasks := draft.tasks
  validationTasks := draft.validationTasks
  keywords := draft.keywords

variable {draft} {folderName : String} {path : Path} {lookup : ReleaseLine → Except Failure Release}

theorem read_minimum (path : Path) :
    Descriptor.Minimum.read path draft.metadata = .ok (.exactly draft.minimum.shown) := by
  have given : draft.metadata.minimum.bind Text.nonBlank? = some draft.minimum.text :=
    Text.nonBlank?_of_settled draft.minimum.settled_text
  rw [Descriptor.Minimum.read, given]
  simp only [Release.no_line_of_text, Release.parse?_text]

theorem read_maximum (path : Path) :
    Descriptor.readMaximum path draft.metadata = .ok draft.maximum := by
  cases maximum : draft.maximum with
  | none => simp [Descriptor.readMaximum, metadata, maximum]
  | some line =>
      have given : draft.metadata.maximum.bind Text.nonBlank? = some line.text := by
        rw [metadata, maximum]
        exact Text.nonBlank?_of_settled line.settled_text
      rw [Descriptor.readMaximum, given]
      simp only [line.parse?_text]

theorem any_slash_of_nonBlank? {text value : String} (nonBlank : Text.nonBlank? text = some value)
    (single : '/' ∉ text.toList ∧ '\\' ∉ text.toList) :
    value.toList.any (fun c => c = '/' || c = '\\') = false := by
  unfold Text.nonBlank? at nonBlank
  split at nonBlank
  · cases nonBlank
  · cases nonBlank
    rw [List.any_eq_false]
    intro c member
    rw [Text.trim, String.toList_ofList] at member
    have within := (Text.infix_trimmed text.toList).subset member
    simp only [Bool.or_eq_true, decide_eq_true_eq]
    rintro (rfl | rfl)
    · exact single.1 within
    · exact single.2 within

theorem read_destination
    (single : ∀ text, draft.destination = some text → '/' ∉ text.toList ∧ '\\' ∉ text.toList)
    (folderName : String) (path : Path) :
    Descriptor.readDestination folderName path draft.metadata =
      .ok (orFolder folderName draft.destination) := by
  rw [← getD_nonBlank?, Descriptor.readDestination]
  cases given : draft.metadata.destination.bind Text.nonBlank? with
  | none =>
      rw [metadata] at given
      rw [given]
      rfl
  | some value =>
      obtain ⟨text, given_, nonBlank⟩ := Option.bind_eq_some_iff.mp given
      have plain := any_slash_of_nonBlank? nonBlank (single text given_)
      rw [metadata] at given
      simp only [plain, given, Option.getD_some]
      rfl

theorem check_keywords (few : ∀ keyword ∈ draft.keywords, keyword.toList.count '/' ≤ 1)
    (path : Path) : Descriptor.checkKeywords path draft.metadata = .ok () := by
  have none_ : draft.keywords.find? (fun keyword => (Keyword.parse? keyword).isNone) = none := by
    rw [List.find?_eq_none]
    intro keyword member
    have found := Keyword.isSome_parse? (few keyword member)
    simpa [Option.isSome_iff_ne_none] using found
  unfold Descriptor.checkKeywords
  rw [metadata, none_]

/-- A metadata file is read as what it was written from, titles and destinations without the blanks
around them. -/
theorem parse_content (draft : Draft)
    (single : ∀ text, draft.destination = some text → '/' ∉ text.toList ∧ '\\' ∉ text.toList)
    (few : ∀ keyword ∈ draft.keywords, keyword.toList.count '/' ≤ 1) (folderName : String)
    (path : Path) (lookup : ReleaseLine → Except Failure Release) :
    Descriptor.parse draft.content folderName path lookup =
        .ok { draft.descriptor folderName with minimum := draft.minimum.shown } ∧
      (draft.minimum.Regular →
        Descriptor.parse draft.content folderName path lookup = .ok (draft.descriptor folderName)) := by
  have parsed : Descriptor.parse draft.content folderName path lookup =
      .ok { draft.descriptor folderName with minimum := draft.minimum.shown } := by
    have read : Descriptor.readMetadata path draft.content = .ok draft.metadata := by
      rw [Descriptor.readMetadata, draft.read_content]
    have title : (draft.metadata.title.bind Text.nonBlank?).getD folderName =
        orFolder folderName draft.title := getD_nonBlank? folderName draft.title
    simp only [Descriptor.parse, read, bind, Except.bind, read_minimum, Descriptor.Minimum.resolve,
      read_maximum, read_destination single, check_keywords few, title]
    rfl
  refine ⟨parsed, ?_⟩
  intro regular
  rw [parsed, Release.shown_of_regular regular]
  rfl

/-- A draft with a quote, a backslash and line feeds in its texts, and a blank destination. -/
def sample : Draft where
  minimum := ⟨8, 1, 0, .beta, 2⟩
  maximum := some ⟨8, 4⟩
  title := some " Add a \"source\"\n folder\n"
  destination := some "\t"
  tasks := [":app\\x"]
  validationTasks := some []
  keywords := ["Themes/Sources", "Others"]

theorem parse_content_sample :
    (∀ text, sample.destination = some text → '/' ∉ text.toList ∧ '\\' ∉ text.toList) ∧
      (∀ keyword ∈ sample.keywords, keyword.toList.count '/' ≤ 1) ∧ sample.minimum.Regular ∧
      Descriptor.parse sample.content "recipe" ⟨"recipe_metadata.toml"⟩
          (fun line => .error (.missingPublishedRelease line)) =
        .ok ⟨"recipe", "Add a \"source\"\n folder", "recipe", ⟨8, 1, 0, .beta, 2⟩, some ⟨8, 4⟩,
          [":app\\x"], some [], ["Themes/Sources", "Others"]⟩ := by
  have single : ∀ text, sample.destination = some text → '/' ∉ text.toList ∧ '\\' ∉ text.toList := by
    rintro text given
    cases given
    decide
  have few : ∀ keyword ∈ sample.keywords, keyword.toList.count '/' ≤ 1 := by decide
  have regular : sample.minimum.Regular := by decide
  refine ⟨single, few, regular, ?_⟩
  exact (parse_content sample single few "recipe" ⟨"recipe_metadata.toml"⟩
    fun line => .error (.missingPublishedRelease line)).2 regular

end Draft

end Cookbook
