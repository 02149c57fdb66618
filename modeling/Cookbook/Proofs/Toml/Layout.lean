import Cookbook.Proofs.Text.Trimming
import Cookbook.Proofs.Toml.Quoting
import Cookbook.Toml.Document

/-!
Documents written as fields and then sections of fields, and read back. Keys and the names of sections
are bare, and a field holds a text or an array of texts.
-/

namespace Cookbook.Toml

def isBare (c : Char) : Bool := c.isAlphanum || c = '_' || c = '-'

def Bare (key : String) : Prop := key.toList ≠ [] ∧ key.toList.all isBare = true

instance (key : String) : Decidable (Bare key) := by
  unfold Bare
  infer_instance

inductive Literal
  | text (content : String)
  | list (items : List String)

namespace Literal

def chars : Literal → List Char
  | text content => quoted content
  | list items => array items

def value : Literal → Value
  | text content => .string content
  | list items => .array false (items.map .string)

end Literal

structure Field where
  key : String
  literal : Literal
  bare : Bare key

namespace Field

def chars (field : Field) : List Char :=
  field.key.toList ++ ' ' :: '=' :: ' ' :: field.literal.chars ++ ['\n']

def entry (field : Field) : String × Value := (field.key, field.literal.value)

end Field

/-- Fields under a header of their own. -/
structure Section where
  name : String
  fields : List Field
  bare : Bare name

namespace Section

def chars (part : Section) : List Char :=
  '\n' :: '[' :: part.name.toList ++ ']' :: '\n' :: part.fields.flatMap Field.chars

def entry (part : Section) : String × Value :=
  (part.name, .table .header (part.fields.map Field.entry))

end Section

structure Layout where
  fields : List Field
  sections : List Section

namespace Layout

def chars (layout : Layout) : List Char :=
  layout.fields.flatMap Field.chars ++ layout.sections.flatMap Section.chars

def entries (layout : Layout) : Entries :=
  layout.fields.map Field.entry ++ layout.sections.map Section.entry

/-- That no key is given twice. -/
structure Distinct (layout : Layout) : Prop where
  top : (layout.fields.map Field.key ++ layout.sections.map Section.name).Nodup
  inner : ∀ part ∈ layout.sections, (part.fields.map Field.key).Nodup

end Layout

/-! ## Entries -/

namespace Entries

variable {entries : Entries} {key : String}

theorem get?_of_notMem (absent : key ∉ entries.map Prod.fst) : entries.get? key = none := by
  rw [get?, List.lookup_eq_none_iff]
  rintro ⟨other, value⟩ member
  have different : key ≠ other := by
    rintro rfl
    exact absent (List.mem_map_of_mem member)
  simpa using different

theorem set_of_notMem (absent : key ∉ entries.map Prod.fst) (value : Value) :
    entries.set key value = entries ++ [(key, value)] := by
  induction entries with
  | nil => rfl
  | cons entry entries ih =>
      obtain ⟨other, old⟩ := entry
      rw [List.map_cons, List.mem_cons, not_or] at absent
      rw [set, if_neg fun same => absent.1 same.symm, ih absent.2, List.cons_append]

theorem get?_last (absent : key ∉ entries.map Prod.fst) (value : Value) :
    get? (entries ++ [(key, value)]) key = some value := by
  have none_ := get?_of_notMem absent
  rw [get?] at none_ ⊢
  rw [List.lookup_append, none_]
  simp

theorem set_last (absent : key ∉ entries.map Prod.fst) (old value : Value) :
    set (entries ++ [(key, old)]) key value = entries ++ [(key, value)] := by
  induction entries with
  | nil => simp [set]
  | cons entry entries ih =>
      obtain ⟨other, kept⟩ := entry
      rw [List.map_cons, List.mem_cons, not_or] at absent
      rw [List.cons_append, set, if_neg fun same => absent.1 same.symm, ih absent.2, List.cons_append]

theorem add_of_notMem (absent : key ∉ entries.map Prod.fst) (value : Value) :
    entries.add [key] value .header = some (entries ++ [(key, value)]) := by
  simp [add, change, get?_of_notMem absent, set_of_notMem absent]

theorem addUnder_last {name : String} (fresh : name ∉ entries.map Prod.fst) {inner : Entries}
    (absent : key ∉ inner.map Prod.fst) (value : Value) :
    addUnder [name] [key] value (entries ++ [(name, .table .header inner)]) =
      some (entries ++ [(name, .table .header (inner ++ [(key, value)]))]) := by
  simp [addUnder, change, get?_last fresh, add_of_notMem absent, set_last fresh]

theorem openTable_of_notMem (absent : key ∉ entries.map Prod.fst) :
    entries.openTable [key] = some (entries ++ [(key, .table .header [])]) := by
  simp [openTable, change, get?_of_notMem absent, set_of_notMem absent]

end Entries

/-! ## Lines -/

theorem ne_of_isBare {c : Char} (bare : isBare c = true) :
    c ∉ ['"', '\'', ' ', '\t', '#', '\n', '\r', '[', '\uFEFF'] := by
  have none_ : ['"', '\'', ' ', '\t', '#', '\n', '\r', '[', '\uFEFF'].any isBare = false := by decide
  rw [List.any_eq_false] at none_
  exact fun member => none_ c member bare

theorem Bare.head {key : String} (bare : Bare key) (rest : List Char) :
    ∃ c cs, key.toList ++ rest = c :: cs ∧ isBare c = true := by
  obtain ⟨nonempty, all⟩ := bare
  cases chars : key.toList with
  | nil => exact absurd chars nonempty
  | cons c cs =>
      rw [chars, List.all_cons, Bool.and_eq_true] at all
      exact ⟨c, cs ++ rest, rfl, all.1⟩

theorem skipBlanks_bare {key : String} (bare : Bare key) (rest : List Char) :
    skipBlanks (key.toList ++ rest) = key.toList ++ rest := by
  obtain ⟨c, cs, chars, first⟩ := bare.head rest
  have other := ne_of_isBare first
  rw [chars]
  exact List.dropWhile_cons_of_neg (by simp_all)

theorem keyPart_bare {key : String} (bare : Bare key) {stop : Char} (other : isBare stop = false)
    (rest : List Char) : keyPart (key.toList ++ stop :: rest) = .ok (key, stop :: rest) := by
  have taken : (key.toList ++ stop :: rest).takeWhile isBare = key.toList := by
    rw [List.takeWhile_append_of_pos (List.all_eq_true.mp bare.2),
      List.takeWhile_cons_of_neg (by simp [other]), List.append_nil]
  have unquoted : shortString? (key.toList ++ stop :: rest) = none := by
    obtain ⟨c, cs, chars, first⟩ := bare.head (stop :: rest)
    have other := ne_of_isBare first
    rw [chars]
    unfold shortString?
    split <;> simp_all
  have reads (cs : List Char) : bareKey cs = if (cs.takeWhile isBare).isEmpty then .error cs
      else .ok (String.ofList (cs.takeWhile isBare), cs.drop (cs.takeWhile isBare).length) := rfl
  rw [keyPart, unquoted, Option.getD_none, reads, taken, if_neg (by simpa using bare.1),
    String.ofList_toList, List.drop_left]

theorem key_bare {name : String} (bare : Bare name) {stop next : Char} {rest after : List Char}
    (other : isBare stop = false) (skipped : skipBlanks (stop :: rest) = next :: after)
    (single : next ≠ '.') : key (name.toList ++ stop :: rest) = .ok ([name], next :: after) := by
  rw [key, nestingLimit, keyParts, skipBlanks_bare bare, keyPart_bare bare other]
  simp only [bind, Except.bind, skipped]
  split
  · next same => exact absurd (List.cons.inj same).1 single
  · rfl

theorem value_literal (literal : Literal) (rest : List Char) :
    value nestingLimit (literal.chars ++ '\n' :: rest) = .ok (literal.value, '\n' :: rest) := by
  cases literal with
  | text content => exact value_quoted _ content _ (by simp)
  | list items => exact value_array 78 items _

theorem skipBlanks_literal (literal : Literal) (rest : List Char) :
    skipBlanks (' ' :: (literal.chars ++ rest)) = literal.chars ++ rest := by
  cases literal <;> rfl

theorem keyValue_field (field : Field) (rest : List Char) :
    keyValue (value nestingLimit) (field.chars ++ rest) =
      .ok (([field.key], field.literal.value), '\n' :: rest) := by
  have named : key (field.key.toList ++ ' ' :: '=' :: ' ' :: (field.literal.chars ++ '\n' :: rest)) =
      .ok ([field.key], '=' :: ' ' :: (field.literal.chars ++ '\n' :: rest)) :=
    key_bare field.bare (by decide) rfl (by decide)
  have written : field.chars ++ rest =
      field.key.toList ++ ' ' :: '=' :: ' ' :: (field.literal.chars ++ '\n' :: rest) := by
    simp [Field.chars]
  rw [written, keyValue, named]
  simp only [bind, Except.bind, skipBlanks_literal, value_literal]
  rfl

variable {header : List String} {entries : Entries}

theorem line_bare {c : Char} (bare : isBare c = true) {cs rest after : List Char} {path : List String}
    {value_ : Value} {added : Entries}
    (read : keyValue (value nestingLimit) (c :: cs) = .ok ((path, value_), rest))
    (fits : entries.addUnder header path value_ = some added) (ended : lineEnd rest = .ok after) :
    line header entries (c :: cs) = .ok ((header, added), after) := by
  have other := ne_of_isBare bare
  unfold line
  split
  case h_6 =>
    simp only [read, bind, Except.bind, fits, ended]
    rfl
  all_goals
    next same =>
      obtain rfl := (List.cons.inj same).1
      exact absurd other (by decide)

theorem line_field (field : Field) {added : Entries} (rest : List Char)
    (fits : entries.addUnder header [field.key] field.literal.value = some added) :
    line header entries (field.chars ++ rest) = .ok ((header, added), rest) := by
  have read := keyValue_field field rest
  obtain ⟨c, cs, chars, first⟩ := field.bare.head
    (' ' :: '=' :: ' ' :: field.literal.chars ++ ['\n'] ++ rest)
  have written : field.chars ++ rest = c :: cs := by
    rw [← chars]
    simp [Field.chars]
  rw [written] at read ⊢
  exact line_bare first read fits rfl

theorem line_header {name : String} (bare : Bare name) {opened : Entries} (rest : List Char)
    (fits : entries.openTable [name] = some opened) :
    line header entries ('[' :: (name.toList ++ ']' :: '\n' :: rest)) =
      .ok (([name], opened), rest) := by
  have named : key (name.toList ++ ']' :: '\n' :: rest) = .ok ([name], ']' :: '\n' :: rest) :=
    key_bare bare (by decide) rfl (by decide)
  obtain ⟨c, cs, chars, first⟩ := bare.head (']' :: '\n' :: rest)
  have single : c ≠ '[' := by
    rintro rfl
    exact absurd first (by decide)
  have ended : lineEnd ('\n' :: rest) = .ok rest := rfl
  rw [chars] at named ⊢
  simp [line, single, named, bind, Except.bind, fits, ended, pure, Except.pure]

/-! ## Lines after lines -/

/-- That what is unread makes, of the entries so far, the entries of the whole document. -/
def Completes (header : List String) (entries : Entries) (cs : List Char) (whole : Entries) : Prop :=
  ∀ fuel, cs.length < fuel → linesFrom fuel header entries cs = .ok whole

theorem completes_nil (header : List String) (entries : Entries) :
    Completes header entries [] entries := by
  intro fuel enough
  obtain ⟨fuel, rfl⟩ : ∃ less, fuel = less + 1 := ⟨fuel - 1, by omega⟩
  rfl

theorem Completes.of_line {after : List String} {added whole : Entries} {cs rest : List Char}
    (skipped : skipBlanks cs = cs) (read : line header entries cs = .ok ((after, added), rest))
    (shorter : rest.length < cs.length) (completes : Completes after added rest whole) :
    Completes header entries cs whole := by
  intro fuel enough
  obtain ⟨fuel, rfl⟩ : ∃ less, fuel = less + 1 := ⟨fuel - 1, by omega⟩
  have later := completes fuel (by omega)
  cases cs with
  | nil => simp at shorter
  | cons c cs =>
      rw [linesFrom, skipped]
      simp only [read, bind, Except.bind, later]

/-- That under a header values go to the end of one table, which has its place in the document. -/
def PutsInto (header : List String) (place : Entries → Entries) : Prop :=
  ∀ (inner : Entries) (key : String) (value : Value), key ∉ inner.map Prod.fst →
    (place inner).addUnder header [key] value = some (place (inner ++ [(key, value)]))

theorem putsInto_top : PutsInto [] id := fun _ _ value absent => Entries.add_of_notMem absent value

theorem putsInto_last {name : String} (fresh : name ∉ entries.map Prod.fst) :
    PutsInto [name] fun inner => entries ++ [(name, .table .header inner)] :=
  fun _ _ value absent => Entries.addUnder_last fresh absent value

theorem skipBlanks_field (field : Field) (rest : List Char) :
    skipBlanks (field.chars ++ rest) = field.chars ++ rest := by
  rw [Field.chars, List.append_assoc, List.append_assoc]
  exact skipBlanks_bare field.bare _

theorem completes_fields {place : Entries → Entries} (puts : PutsInto header place) (fields : List Field)
    {inner whole : Entries} {rest : List Char}
    (distinct : (inner.map Prod.fst ++ fields.map Field.key).Nodup)
    (completes : Completes header (place (inner ++ fields.map Field.entry)) rest whole) :
    Completes header (place inner) (fields.flatMap Field.chars ++ rest) whole := by
  induction fields generalizing inner with
  | nil => simpa using completes
  | cons field fields ih =>
      have absent : field.key ∉ inner.map Prod.fst := fun member =>
        (List.nodup_append.mp distinct).2.2 _ member _ List.mem_cons_self rfl
      have fits := puts inner field.key field.literal.value absent
      have later : Completes header (place (inner ++ [field.entry]))
          (fields.flatMap Field.chars ++ rest) whole := by
        refine ih ?_ ?_
        · simpa [Field.entry] using distinct
        · simpa using completes
      rw [List.flatMap_cons, List.append_assoc]
      refine later.of_line (skipBlanks_field field _) (line_field field _ fits) ?_
      simp only [Field.chars, List.length_append, List.length_cons]
      omega

theorem completes_section {part : Section} {whole : Entries} {rest : List Char}
    (fresh : part.name ∉ entries.map Prod.fst) (distinct : (part.fields.map Field.key).Nodup)
    (completes : Completes [part.name] (entries ++ [part.entry]) rest whole) :
    Completes header entries (part.chars ++ rest) whole := by
  have fields : Completes [part.name] (entries ++ [(part.name, .table .header [])])
      (part.fields.flatMap Field.chars ++ rest) whole :=
    completes_fields (putsInto_last fresh) part.fields (by simpa using distinct) completes
  have opened := @line_header header _ _ part.bare _ (part.fields.flatMap Field.chars ++ rest)
    (Entries.openTable_of_notMem fresh)
  have under := fields.of_line rfl opened (by simp; omega)
  have written : part.chars ++ rest =
      '\n' :: '[' :: (part.name.toList ++ ']' :: '\n' :: (part.fields.flatMap Field.chars ++ rest)) := by
    simp [Section.chars]
  rw [written]
  exact under.of_line rfl rfl (by simp)

theorem completes_sections (sections : List Section)
    (fresh : (entries.map Prod.fst ++ sections.map Section.name).Nodup)
    (distinct : ∀ part ∈ sections, (part.fields.map Field.key).Nodup) :
    Completes header entries (sections.flatMap Section.chars)
      (entries ++ sections.map Section.entry) := by
  induction sections generalizing header entries with
  | nil => simpa using completes_nil header entries
  | cons part sections ih =>
      have absent : part.name ∉ entries.map Prod.fst := fun member =>
        (List.nodup_append.mp fresh).2.2 _ member _ List.mem_cons_self rfl
      have later : Completes [part.name] (entries ++ [part.entry])
          (sections.flatMap Section.chars) (entries ++ [part.entry] ++ sections.map Section.entry) := by
        refine ih ?_ ?_
        · simpa [Section.entry] using fresh
        · exact fun other member => distinct other (List.mem_cons_of_mem _ member)
      rw [List.append_assoc] at later
      exact completes_section absent (distinct part List.mem_cons_self) later

theorem map_fst_entry (fields : List Field) :
    (fields.map Field.entry).map Prod.fst = fields.map Field.key := by
  rw [List.map_map]
  rfl

theorem Layout.unmarked (layout : Layout) (rest : List Char) : layout.chars ≠ '\uFEFF' :: rest := by
  intro same
  obtain ⟨fields, sections⟩ := layout
  cases fields with
  | nil =>
      cases sections with
      | nil => exact absurd same nofun
      | cons part sections => exact absurd (List.cons.inj same).1 (by decide)
  | cons field fields =>
      obtain ⟨c, cs, chars, first⟩ := field.bare.head (' ' :: '=' :: ' ' :: field.literal.chars ++
        ['\n'] ++ fields.flatMap Field.chars ++ sections.flatMap Section.chars)
      have opened : (⟨field :: fields, sections⟩ : Layout).chars = c :: cs := by
        rw [← chars]
        simp [Layout.chars, Field.chars]
      obtain rfl := (List.cons.inj (opened.symm.trans same)).1
      exact absurd first (by decide)

/-- A document is read as the fields and sections that it was written from. -/
theorem read_layout {layout : Layout} (distinct : layout.Distinct) :
    read (String.ofList layout.chars) = .ok layout.entries := by
  have sections : Completes [] (layout.fields.map Field.entry) (layout.sections.flatMap Section.chars)
      layout.entries :=
    completes_sections _ (by rw [map_fst_entry]; exact distinct.top) distinct.inner
  have keys : (([] : Entries).map Prod.fst ++ layout.fields.map Field.key).Nodup :=
    (List.nodup_append.mp distinct.top).1
  have whole : Completes [] [] layout.chars layout.entries :=
    completes_fields putsInto_top layout.fields keys sections
  have all := whole (layout.chars.length + 1) (Nat.lt_succ_self _)
  unfold read
  rw [String.toList_ofList]
  split
  · next marked => exact absurd marked (layout.unmarked _)
  · simp only [all]

end Cookbook.Toml
