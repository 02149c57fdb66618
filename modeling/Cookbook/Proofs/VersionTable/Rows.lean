import Cookbook.Proofs.Grammar
import Cookbook.Proofs.Text.Lines
import Cookbook.Proofs.Text.Trimming
import Cookbook.VersionTable

/-!
# What a line of a version table says

A line of text is passed over, pairs a release line with versions, or has a flaw (`line_cases`), and
`row?` tells which. That depends on nothing but its first three fields (`row?_congr`) and not on blanks
around it (`row?_eq_of_trimmed`).
-/

namespace Cookbook

/-! ## Fields without blanks around them -/

namespace Text

variable {separator : Char} {before after tail : List Char}

def trimmedFields (separator : Char) (cs : List Char) : List (List Char) :=
  (fields separator cs).map trimmed

theorem notMem_of_blank (solid : isBlank separator = false) (blank : tail.all isBlank = true) :
    separator ∉ tail := by
  intro member
  rw [List.all_eq_true.mp blank _ member] at solid
  cases solid

theorem trimmedFields_append_blank (solid : isBlank separator = false) (cs : List Char)
    (blank : after.all isBlank = true) :
    trimmedFields separator (cs ++ after) = trimmedFields separator cs := by
  obtain ⟨front, last, split, longer⟩ := fields_append_of_notMem (notMem_of_blank solid blank) cs
  rw [trimmedFields, trimmedFields, split, longer, List.map_append, List.map_append, List.map_singleton,
    List.map_singleton, trimmed_append_blank last blank]

theorem trimmedFields_blank_append (solid : isBlank separator = false)
    (blank : before.all isBlank = true) (cs : List Char) :
    trimmedFields separator (before ++ cs) = trimmedFields separator cs := by
  have absent := notMem_of_blank solid blank
  obtain ⟨first, rest, split⟩ := List.exists_cons_of_ne_nil (fields_ne_nil separator cs)
  have longer : fields separator (before ++ cs) = (before ++ first) :: rest := by
    clear blank
    induction before with
    | nil => exact split
    | cons c before ih =>
        rw [List.mem_cons, not_or] at absent
        obtain ⟨_, _, apart, with_⟩ := fields_of_ne (Ne.symm absent.1) (before ++ cs)
        rw [ih absent.2] at apart
        cases apart
        exact with_
  rw [trimmedFields, trimmedFields, split, longer, List.map_cons, List.map_cons,
    trimmed_blank_append blank]

theorem trimmedFields_trimmed (solid : isBlank separator = false) (cs : List Char) :
    trimmedFields separator (trimmed cs) = trimmedFields separator cs := by
  obtain ⟨before, after, blankBefore, blankAfter, whole⟩ := exists_trimmed cs
  conv_rhs => rw [whole]
  rw [trimmedFields_append_blank solid _ blankAfter, trimmedFields_blank_append solid blankBefore]

end Text

namespace VersionTable

/-! ## Rows -/

/-- That a line of text is passed over, as it is blank or a comment. -/
def Idle (text : String) : Prop := Text.trim text = "" ∨ "#".toList <+: (Text.trim text).toList

/-- That a text has at least three fields, of which these are the first. -/
structure HasFields (text a b c : String) : Prop where
  whole : text = a ++ ";" ++ b ++ ";" ++ c ∨ ∃ more, text = a ++ ";" ++ b ++ ";" ++ c ++ ";" ++ more
  first : ';' ∉ a.toList
  second : ';' ∉ b.toList
  third : ';' ∉ c.toList

/-- That a line of text pairs a release line with versions. Blanks around the fields do not count. -/
structure Pairs (text : String) (line : ReleaseLine) (companions : Companions) : Prop where
  active : ¬ Idle text
  fields : ∃ a b c, HasFields text a b c ∧ ReleaseLine.Denotes (Text.trim a) line ∧
    companions = ⟨Text.trim b, Text.trim c⟩

/-- What is wrong with a line of text that is neither passed over nor a row. -/
inductive Flawed (text : String) : Flaw → Prop
  | tooFewFields (active : ¬ Idle text) (few : ∀ a b c, ¬ HasFields text a b c) :
      Flawed text (.tooFewFields (Text.trim text))
  | notALine {a b c : String} (active : ¬ Idle text) (fields : HasFields text a b c)
      (other : ∀ line, ¬ ReleaseLine.Denotes (Text.trim a) line) : Flawed text (.notALine (Text.trim a))

/-- That a line of text is one that a table may have. -/
def Fits (text : String) : Prop := Idle text ∨ ∃ line companions, Pairs text line companions

/-- That a line of text is a row of the release line. -/
def Names (line : ReleaseLine) (text : String) : Prop := ∃ companions, Pairs text line companions

/-- What a line of text pairs with the release line. -/
def companions? (line : ReleaseLine) (text : String) : Option Companions :=
  match row? text with
  | .ok (some (other, companions)) => if line = other then some companions else none
  | _ => none

section Rows

variable {text other a b c : String} {line : ReleaseLine} {companions : Companions} {flaw : Flaw}

theorem idle_iff_head? : Idle text ↔ ∀ start ∈ (Text.trimmed text.toList).head?, start = '#' := by
  rw [Idle, Text.trim, ← String.toList_eq_nil_iff, String.toList_ofList]
  cases Text.trimmed text.toList with
  | nil => simp
  | cons start rest => simp [eq_comm]

theorem idle_iff : Idle text ↔ ((Text.trimmed text.toList).isEmpty ||
    (Text.trimmed text.toList).head? = some '#') = true := by
  rw [idle_iff_head?]
  cases Text.trimmed text.toList with
  | nil => simp
  | cons start rest => simp

instance : DecidablePred Idle := fun _ => decidable_of_iff _ idle_iff.symm

theorem hasFields_iff : HasFields text a b c ↔
    ∃ rest, Text.fields ';' text.toList = a.toList :: b.toList :: c.toList :: rest := by
  constructor
  · rintro ⟨whole, first, second, third⟩
    obtain rfl | ⟨more, rfl⟩ := whole
    · refine ⟨[], ?_⟩
      have chars : (a ++ ";" ++ b ++ ";" ++ c).toList =
          a.toList ++ ';' :: (b.toList ++ ';' :: c.toList) := by simp
      rw [chars, Text.fields_append, Text.fields_append, Text.fields_of_notMem first,
        Text.fields_of_notMem second, Text.fields_of_notMem third]
      rfl
    · refine ⟨Text.fields ';' more.toList, ?_⟩
      have chars : (a ++ ";" ++ b ++ ";" ++ c ++ ";" ++ more).toList =
          a.toList ++ ';' :: (b.toList ++ ';' :: (c.toList ++ ';' :: more.toList)) := by simp
      rw [chars, Text.fields_append, Text.fields_append, Text.fields_append, Text.fields_of_notMem first,
        Text.fields_of_notMem second, Text.fields_of_notMem third]
      rfl
  · rintro ⟨rest, split⟩
    have absent {field : List Char} (member : field ∈ Text.fields ';' text.toList) : ';' ∉ field :=
      Text.notMem_of_mem_fields member
    refine ⟨?_, absent (by simp [split]), absent (by simp [split]), absent (by simp [split])⟩
    obtain ⟨afterFirst, whole, splitFirst⟩ := Text.eq_append_of_fields split
    obtain ⟨afterSecond, rfl, splitSecond⟩ := Text.eq_append_of_fields splitFirst
    cases rest with
    | nil =>
        obtain rfl := Text.eq_of_fields splitSecond
        refine .inl ?_
        rw [← String.toList_inj, whole]
        simp
    | cons next rest =>
        obtain ⟨more, rfl, -⟩ := Text.eq_append_of_fields splitSecond
        refine .inr ⟨String.ofList more, ?_⟩
        rw [← String.toList_inj, whole]
        simp

theorem row?_of_active (active : ¬ Idle text) : row? text =
    match (Text.trimmedFields ';' text.toList).map String.ofList with
    | line :: gradle :: kotlin :: _ => match ReleaseLine.parse? line with
        | some line => .ok (some (line, ⟨gradle, kotlin⟩))
        | none => .error (.notALine line)
    | _ => .error (.tooFewFields (Text.trim text)) := by
  have solid : Text.isBlank ';' = false := by decide
  rw [← Text.trimmedFields_trimmed solid, row?, if_neg (mt idle_iff.mpr active), Text.trimmedFields,
    List.map_map]
  rfl

theorem row?_of_idle (idle : Idle text) : row? text = .ok none := if_pos (idle_iff.mp idle)

theorem row?_of_hasFields (active : ¬ Idle text) (fields : HasFields text a b c) : row? text =
    match ReleaseLine.parse? (Text.trim a) with
    | some line => .ok (some (line, ⟨Text.trim b, Text.trim c⟩))
    | none => .error (.notALine (Text.trim a)) := by
  obtain ⟨rest, split⟩ := hasFields_iff.mp fields
  rw [row?_of_active active, Text.trimmedFields, split]
  rfl

theorem row?_of_few (active : ¬ Idle text) (few : ∀ a b c, ¬ HasFields text a b c) :
    row? text = .error (.tooFewFields (Text.trim text)) := by
  rw [row?_of_active active, Text.trimmedFields]
  rcases split : Text.fields ';' text.toList with _ | ⟨first, _ | ⟨second, _ | ⟨third, rest⟩⟩⟩
  · rfl
  · rfl
  · rfl
  · refine absurd (hasFields_iff.mpr ⟨rest, ?_⟩)
      (few (String.ofList first) (String.ofList second) (String.ofList third))
    simpa using split

theorem row?_of_pairs (pairs : Pairs text line companions) :
    row? text = .ok (some (line, companions)) := by
  obtain ⟨active, a, b, c, fields, denotes, rfl⟩ := pairs
  rw [row?_of_hasFields active fields, ReleaseLine.parse?_eq_some_iff.mpr denotes]

theorem row?_of_flawed (flawed : Flawed text flaw) : row? text = .error flaw := by
  cases flawed with
  | tooFewFields active few => exact row?_of_few active few
  | @notALine a b c active fields other =>
      have unread : ReleaseLine.parse? (Text.trim a) = none :=
        Option.eq_none_iff_forall_ne_some.mpr fun line read =>
          other line (ReleaseLine.parse?_eq_some_iff.mp read)
      rw [row?_of_hasFields active fields, unread]

/-- A line of text is passed over, is a row or has a flaw. -/
theorem line_cases (text : String) :
    Idle text ∨ (∃ line companions, Pairs text line companions) ∨ ∃ flaw, Flawed text flaw := by
  by_cases active : Idle text
  · exact .inl active
  by_cases fields : ∃ a b c, HasFields text a b c
  · obtain ⟨a, b, c, fields⟩ := fields
    cases read : ReleaseLine.parse? (Text.trim a) with
    | some line =>
        exact .inr (.inl ⟨line, _, active, a, b, c, fields, ReleaseLine.parse?_eq_some_iff.mp read, rfl⟩)
    | none =>
        refine .inr (.inr ⟨_, .notALine active fields fun line denotes => ?_⟩)
        rw [ReleaseLine.parse?_eq_some_iff.mpr denotes] at read
        cases read
  · simp only [not_exists] at fields
    exact .inr (.inr ⟨_, .tooFewFields active fields⟩)

theorem row?_eq_some : row? text = .ok (some (line, companions)) ↔ Pairs text line companions := by
  refine ⟨fun row => ?_, row?_of_pairs⟩
  obtain idle | ⟨line, companions, pairs⟩ | ⟨flaw, flawed⟩ := line_cases text
  · rw [row?_of_idle idle] at row
    cases row
  · rw [row?_of_pairs pairs] at row
    cases row
    exact pairs
  · rw [row?_of_flawed flawed] at row
    cases row

theorem row?_eq_error : row? text = .error flaw ↔ Flawed text flaw := by
  refine ⟨fun row => ?_, row?_of_flawed⟩
  obtain idle | ⟨line, companions, pairs⟩ | ⟨flaw, flawed⟩ := line_cases text
  · rw [row?_of_idle idle] at row
    cases row
  · rw [row?_of_pairs pairs] at row
    cases row
  · rw [row?_of_flawed flawed] at row
    cases row
    exact flawed

theorem fits_iff : Fits text ↔ ∀ flaw, row? text ≠ .error flaw := by
  constructor
  · rintro (idle | ⟨line, companions, pairs⟩) flaw
    · rw [row?_of_idle idle]
      exact nofun
    · rw [row?_of_pairs pairs]
      exact nofun
  · intro flawless
    obtain idle | row | ⟨flaw, flawed⟩ := line_cases text
    · exact .inl idle
    · exact .inr row
    · exact absurd (row?_of_flawed flawed) (flawless flaw)

theorem row?_congr (fields : HasFields text a b c) (fields' : HasFields other a b c) :
    row? text = row? other := by
  have start {text : String} (fields : HasFields text a b c) :
      Idle text ↔ ∀ start ∈ (Text.dropBlanks a.toList ++ [';']).head?, start = '#' := by
    obtain ⟨rest, whole⟩ : ∃ rest, text.toList = a.toList ++ ';' :: rest := by
      obtain rfl | ⟨more, rfl⟩ := fields.whole
      · exact ⟨b.toList ++ ';' :: c.toList, by simp⟩
      · exact ⟨b.toList ++ ';' :: (c.toList ++ ';' :: more.toList), by simp⟩
    have stop : ∀ x ∈ (';' :: rest).head?, Text.isBlank x = false := by
      rintro _ ⟨⟩
      decide
    rw [idle_iff_head?, Text.head?_trimmed, whole, Text.dropBlanks,
      Text.dropWhile_append_of_stop _ stop, ← Text.dropBlanks]
    cases Text.dropBlanks a.toList <;> rfl
  by_cases idle : Idle text
  · rw [row?_of_idle idle, row?_of_idle ((start fields').mpr ((start fields).mp idle))]
  · have active : ¬ Idle other := fun idle' => idle ((start fields).mpr ((start fields').mp idle'))
    rw [row?_of_hasFields idle fields, row?_of_hasFields active fields']

theorem row?_eq_of_trimmed (same : Text.trimmed text.toList = Text.trimmed other.toList) :
    row? text = row? other := by
  rw [row?, same, row?]

theorem companions?_eq_some : companions? line text = some companions ↔ Pairs text line companions := by
  rw [← row?_eq_some, companions?]
  split
  · next other found row =>
      rw [row]
      by_cases same : line = other
      · simp [same]
      · simp [same, Ne.symm same]
  · next row => exact iff_of_false nofun (row line companions)

theorem companions?_eq_none : companions? line text = none ↔ ¬ Names line text := by
  rw [Option.eq_none_iff_forall_ne_some, Names, not_exists]
  exact forall_congr' fun companions => not_congr companions?_eq_some

instance (line : ReleaseLine) : DecidablePred (Names line) := fun _ =>
  decidable_of_iff (companions? line _ ≠ none) (not_iff_comm.mp companions?_eq_none.symm)

instance : DecidablePred Fits := fun text =>
  match row : row? text with
  | .ok _ => isTrue (fits_iff.mpr (by simp [row]))
  | .error flaw => isFalse fun fits => fits_iff.mp fits flaw row

theorem Names.unique {line' : ReleaseLine} (named : Names line text) (named' : Names line' text) :
    line = line' := by
  obtain ⟨companions, pairs⟩ := named
  obtain ⟨companions', pairs'⟩ := named'
  have same := (row?_of_pairs pairs).symm.trans (row?_of_pairs pairs')
  cases same
  rfl

theorem Flawed.not_fits (flawed : Flawed text flaw) : ¬ Fits text := fun fits =>
  fits_iff.mp fits flaw (row?_of_flawed flawed)

theorem Flawed.unique {flaw' : Flaw} (flawed : Flawed text flaw) (flawed' : Flawed text flaw') :
    flaw = flaw' :=
  Except.error.inj ((row?_of_flawed flawed).symm.trans (row?_of_flawed flawed'))

end Rows

end VersionTable
end Cookbook
