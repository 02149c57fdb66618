import Cookbook.Context
import Cookbook.Proofs.OrderedMap
import Cookbook.Proofs.VersionTable.Rows

/-!
# Reading a version table

`VersionTable.read_lastRows`: a text is read exactly if each of its lines is a row, a comment or blank, and
then the table holds what the last row of each release line says. Else the first line that is none of
these is reported with its number. What is read does not depend on lines that are passed over, on how
lines end, on further fields, or on the order of rows of different release lines.
-/

namespace Cookbook

theorem ReleaseLine.compare_eq_lt {a b : ReleaseLine} : compare a b = .lt ↔
    a.major < b.major ∨ a.major = b.major ∧ a.minor < b.minor := by
  have lexically : compare a b = (compare a.major b.major).then (compare a.minor b.minor) := rfl
  rw [lexically, Ordering.then_eq_lt, Std.compare_eq_lt, Std.compare_eq_lt,
    Std.LawfulEqOrd.compare_eq_iff_eq]

namespace VersionTable

/-! ## Runs of rows -/

/-- That the line of text at a place has a flaw, and those before it fit. -/
structure FirstFlaw (texts : List String) (place : Nat) (flaw : Flaw) : Prop where
  flawed : ∃ text, texts[place]? = some text ∧ Flawed text flaw
  before : ∀ text ∈ texts.take place, Fits text

section Runs

variable {text : String} {texts others : List String} {line : ReleaseLine} {companions : Companions}
  {flaw : Flaw} {number place : Nat} {table result : VersionTable}

theorem addRows_cons_of_idle (idle : Idle text) :
    addRows number table (text :: texts) = addRows (number + 1) table texts := by
  rw [addRows, row?_of_idle idle]

theorem addRows_cons_of_pairs (pairs : Pairs text line companions) :
    addRows number table (text :: texts) =
      addRows (number + 1) (table.insert line companions) texts := by
  rw [addRows, row?_of_pairs pairs]

theorem addRows_cons_of_flawed (flawed : Flawed text flaw) :
    addRows number table (text :: texts) = .error (number, flaw) := by
  rw [addRows, row?_of_flawed flawed]

theorem addRows_congr (same : texts.map row? = others.map row?) :
    addRows number table texts = addRows number table others := by
  induction texts generalizing others number table with
  | nil =>
      obtain rfl := List.map_eq_nil_iff.mp same.symm
      rfl
  | cons text texts ih =>
      obtain ⟨other, others, rfl, row, rest⟩ := List.map_eq_cons_iff.mp same.symm
      rw [addRows, addRows, row]
      split
      · rfl
      · exact ih rest.symm
      · exact ih rest.symm

theorem firstFlaw_cons_zero : FirstFlaw (text :: texts) 0 flaw ↔ Flawed text flaw :=
  ⟨fun ⟨⟨_, rfl, flawed⟩, _⟩ => flawed, fun flawed => ⟨⟨text, rfl, flawed⟩, List.forall_mem_nil _⟩⟩

theorem firstFlaw_cons_succ :
    FirstFlaw (text :: texts) (place + 1) flaw ↔ Fits text ∧ FirstFlaw texts place flaw := by
  constructor
  · rintro ⟨flawed, before⟩
    obtain ⟨fits, before⟩ := List.forall_mem_cons.mp before
    exact ⟨fits, flawed, before⟩
  · rintro ⟨fits, flawed, before⟩
    exact ⟨flawed, List.forall_mem_cons.mpr ⟨fits, before⟩⟩

theorem firstFlaw_nil : ¬ FirstFlaw [] place flaw := fun ⟨⟨_, absent, _⟩, _⟩ => nomatch absent

theorem exists_firstFlaw_cons {last : Nat} (fits : Fits text) :
    (∃ place, FirstFlaw (text :: texts) place flaw ∧ last = number + place) ↔
      ∃ place, FirstFlaw texts place flaw ∧ last = number + 1 + place := by
  constructor
  · rintro ⟨_ | place, first, rfl⟩
    · exact absurd fits (firstFlaw_cons_zero.mp first).not_fits
    · exact ⟨place, (firstFlaw_cons_succ.mp first).2, by omega⟩
  · rintro ⟨place, first, rfl⟩
    exact ⟨place + 1, firstFlaw_cons_succ.mpr ⟨fits, first⟩, by omega⟩

theorem addRows_eq_error {failed : Nat × Flaw} : addRows number table texts = .error failed ↔
    ∃ place, FirstFlaw texts place failed.2 ∧ failed.1 = number + place := by
  induction texts generalizing number table with
  | nil => simp [addRows, firstFlaw_nil]
  | cons text texts ih =>
      obtain idle | ⟨line, companions, pairs⟩ | ⟨flaw, flawed⟩ := line_cases text
      · rw [addRows_cons_of_idle idle, ih, exists_firstFlaw_cons (.inl idle)]
      · rw [addRows_cons_of_pairs pairs, ih, exists_firstFlaw_cons (.inr ⟨line, companions, pairs⟩)]
      · rw [addRows_cons_of_flawed flawed]
        constructor
        · rintro ⟨⟩
          exact ⟨0, firstFlaw_cons_zero.mpr flawed, rfl⟩
        · rintro ⟨_ | place, first, last⟩
          · rw [flawed.unique (firstFlaw_cons_zero.mp first)]
            exact congrArg Except.error (Prod.ext last.symm rfl)
          · exact absurd (firstFlaw_cons_succ.mp first).1 flawed.not_fits

theorem exists_addRows : (∃ result, addRows number table texts = .ok result) ↔
    ∀ text ∈ texts, Fits text := by
  induction texts generalizing number table with
  | nil => exact iff_of_true ⟨table, rfl⟩ (List.forall_mem_nil _)
  | cons text texts ih =>
      rw [List.forall_mem_cons]
      obtain idle | ⟨line, companions, pairs⟩ | ⟨flaw, flawed⟩ := line_cases text
      · rw [addRows_cons_of_idle idle, ih, and_iff_right (.inl idle)]
      · rw [addRows_cons_of_pairs pairs, ih, and_iff_right (.inr ⟨line, companions, pairs⟩)]
      · rw [addRows_cons_of_flawed flawed]
        exact iff_of_false nofun fun fit => flawed.not_fits fit.1

theorem get?_addRows (run : addRows number table texts = .ok result) (line : ReleaseLine) :
    result.get? line = (texts.filterMap (companions? line)).getLast?.or (table.get? line) := by
  induction texts generalizing number table with
  | nil =>
      cases run
      rfl
  | cons text texts ih =>
      obtain idle | ⟨other, companions, pairs⟩ | ⟨flaw, flawed⟩ := line_cases text
      · rw [addRows_cons_of_idle idle] at run
        have unnamed : companions? line text = none := by simp [companions?, row?_of_idle idle]
        rw [ih run, List.filterMap_cons_none unnamed]
      · rw [addRows_cons_of_pairs pairs] at run
        rw [ih run, OrderedMap.insert, OrderedMap.get?_alter, List.filterMap_cons]
        by_cases same : line = other
        · subst same
          simp [companions?_eq_some.mpr pairs, List.getLast?_cons]
        · have unnamed : companions? line text = none := by
            simp [companions?, row?_of_pairs pairs, same]
          rw [unnamed, if_neg same]
      · rw [addRows_cons_of_flawed flawed] at run
        cases run

theorem get?_eq_some_of_addRows (run : addRows number .empty texts = .ok table) :
    table.get? line = some companions ↔ ∃ before text after, texts = before ++ text :: after ∧
      Pairs text line companions ∧ ∀ later ∈ after, ¬ Names line later := by
  have none_ : (OrderedMap.empty : VersionTable).get? line = none := rfl
  rw [get?_addRows run, none_, Option.or_none, List.getLast?_filterMap, List.findSome?_eq_some_iff]
  constructor
  · rintro ⟨after, text, before, backwards, pairs, unnamed⟩
    refine ⟨before.reverse, text, after.reverse, ?_, companions?_eq_some.mp pairs, ?_⟩
    · rw [← List.reverse_reverse texts, backwards]
      simp
    · exact fun later member => companions?_eq_none.mp (unnamed later (List.mem_reverse.mp member))
  · rintro ⟨before, text, after, rfl, pairs, unnamed⟩
    refine ⟨after.reverse, text, before.reverse, by simp, companions?_eq_some.mpr pairs, ?_⟩
    exact fun later member => companions?_eq_none.mpr (unnamed later (List.mem_reverse.mp member))

theorem get?_eq_none_of_addRows (run : addRows number .empty texts = .ok table) :
    table.get? line = none ↔ ∀ text ∈ texts, ¬ Names line text := by
  have none_ : (OrderedMap.empty : VersionTable).get? line = none := rfl
  rw [get?_addRows run, none_, Option.or_none, List.getLast?_eq_none_iff, List.filterMap_eq_nil_iff]
  exact forall₂_congr fun text _ => companions?_eq_none

end Runs

/-- That a table holds what the last row of each release line says, and lists these lines in order. -/
structure Holds (table : VersionTable) (texts : List String) : Prop where
  last : ∀ line companions, table.get? line = some companions ↔
    ∃ before text after, texts = before ++ text :: after ∧ Pairs text line companions ∧
      ∀ later ∈ after, ¬ Names line later
  absent : ∀ line, table.get? line = none ↔ ∀ text ∈ texts, ¬ Names line text
  listed : ∀ line, line ∈ table.keys ↔ ∃ text ∈ texts, Names line text
  ascending : table.keys.Pairwise fun a b => a.major < b.major ∨ a.major = b.major ∧ a.minor < b.minor

theorem holds_of_addRows {number : Nat} {texts : List String} {table : VersionTable}
    (run : addRows number .empty texts = .ok table) : table.Holds texts where
  last _ _ := get?_eq_some_of_addRows run
  absent _ := get?_eq_none_of_addRows run
  listed line := by
    rw [OrderedMap.mem_keys_iff, ne_eq, get?_eq_none_of_addRows run]
    simp only [not_forall, not_not, exists_prop]
  ascending := by
    simp only [← ReleaseLine.compare_eq_lt]
    exact table.keys_pairwise

/-! ## What does not matter -/

/-- What is read, without the number of the line that may have been reported. -/
def unnumbered : Except Failure VersionTable → Except Failure VersionTable
  | .error (.malformedVersionTable _ flaw) => .error (.malformedVersionTable 0 flaw)
  | result => result

/-- That two lines of text start with the same three fields, unless they are the same. -/
def SameFields (text other : String) : Prop :=
  text = other ∨ ∃ a b c, HasFields text a b c ∧ HasFields other a b c

/-- Lines of text, some with a carriage return before the line feed, and an open one. -/
def withEnds (ended : List (String × Bool)) (last : String) : String :=
  String.join (ended.map fun (line, returns) => line ++ if returns then "\r\n" else "\n") ++ last

section Reading

variable {text other : String} {texts others : List String} {flaw : Flaw} {number place : Nat}
  {table result : VersionTable}

theorem filter_unfit_of_addRows (run : addRows number table texts = .ok result) :
    texts.filter (¬ Fits ·) = [] := by
  simpa [List.filter_eq_nil_iff] using exists_addRows.mp ⟨result, run⟩

theorem FirstFlaw.head? (first : FirstFlaw texts place flaw) :
    ∃ text, (texts.filter (¬ Fits ·)).head? = some text ∧ Flawed text flaw := by
  obtain ⟨⟨text, there, flawed⟩, before⟩ := first
  have whole : texts = texts.take place ++ text :: texts.drop (place + 1) := by
    obtain ⟨inside, rfl⟩ := List.getElem?_eq_some_iff.mp there
    rw [← List.drop_eq_getElem_cons inside, List.take_append_drop]
  have fitting : (texts.take place).filter (¬ Fits ·) = [] := by
    simpa [List.filter_eq_nil_iff] using before
  refine ⟨text, ?_, flawed⟩
  rw [whole, List.filter_append, fitting, List.filter_cons_of_pos (by simpa using flawed.not_fits)]
  rfl

theorem filterMap_companions? (line : ReleaseLine) (texts : List String) :
    (texts.filter (Names line ·)).filterMap (companions? line) = texts.filterMap (companions? line) := by
  rw [List.filterMap_filter]
  refine congrArg (List.filterMap · texts) (funext fun text => ?_)
  by_cases named : Names line text
  · simp [named]
  · simp [named, companions?_eq_none.mpr named]

/-- What a run ends with depends on the rows of each release line and on the lines that do not fit. -/
theorem addRows_rearranged
    (rows : ∀ line, texts.filter (Names line ·) = others.filter (Names line ·))
    (unfit : texts.filter (¬ Fits ·) = others.filter (¬ Fits ·)) :
    (addRows number table texts).mapError (·.2) = (addRows number table others).mapError (·.2) := by
  -- With the same lines that do not fit, both fail at the first of those or both go through.
  cases run : addRows number table texts with
  | ok result =>
      cases run' : addRows number table others with
      | ok result' =>
          refine congrArg Except.ok (OrderedMap.ext_get? fun line => ?_)
          rw [get?_addRows run, get?_addRows run', ← filterMap_companions? line texts, rows,
            filterMap_companions?]
      | error failed =>
          obtain ⟨place, first, -⟩ := addRows_eq_error.mp run'
          obtain ⟨text, head, -⟩ := first.head?
          rw [← unfit, filter_unfit_of_addRows run] at head
          cases head
  | error failed =>
      obtain ⟨place, first, -⟩ := addRows_eq_error.mp run
      obtain ⟨text, head, flawed⟩ := first.head?
      rw [unfit] at head
      cases run' : addRows number table others with
      | ok result' =>
          rw [filter_unfit_of_addRows run'] at head
          cases head
      | error failed' =>
          obtain ⟨place', first', -⟩ := addRows_eq_error.mp run'
          obtain ⟨text', head', flawed'⟩ := first'.head?
          obtain rfl := Option.some.inj (head.symm.trans head')
          exact congrArg Except.error (flawed.unique flawed')

theorem filter_names_idle (line : ReleaseLine) (texts : List String) :
    (texts.filter (¬ Idle ·)).filter (Names line ·) = texts.filter (Names line ·) := by
  rw [List.filter_filter]
  refine List.filter_congr fun text _ => ?_
  by_cases named : Names line text
  · obtain ⟨companions, pairs⟩ := named
    simp [pairs.active]
  · simp [named]

theorem filter_unfit_idle (texts : List String) :
    (texts.filter (¬ Idle ·)).filter (¬ Fits ·) = texts.filter (¬ Fits ·) := by
  rw [List.filter_filter]
  refine List.filter_congr fun text _ => ?_
  by_cases idle : Idle text
  · simp [idle, Fits]
  · simp [idle]

theorem map_row?_of_sameFields (same : List.Forall₂ SameFields texts others) :
    texts.map row? = others.map row? := by
  induction same with
  | nil => rfl
  | cons first rest ih =>
      rw [List.map_cons, List.map_cons, ih]
      obtain rfl | ⟨a, b, c, fields, fields'⟩ := first
      · rfl
      · rw [row?_congr fields fields']

theorem row?_dropReturn (cs : List Char) :
    row? (String.ofList (Text.dropReturn cs)) = row? (String.ofList cs) := by
  refine row?_eq_of_trimmed ?_
  rw [String.toList_ofList, String.toList_ofList, Text.dropReturn]
  split
  · next returns =>
      have blank : ['\r'].all Text.isBlank = true := by decide
      rw [← Text.trimmed_append_blank cs.dropLast blank, List.dropLast_append_getLast? _ returns]
  · rfl

theorem map_row?_broken_return (line : String) :
    (Text.broken (line ++ "\r")).map row? = (Text.broken line).map row? := by
  have pieces (line : String) : (Text.broken line).map row? =
      (Text.fields '\n' line.toList).map fun piece => row? (String.ofList piece) := by
    simp only [Text.broken, List.map_map, Function.comp_def, row?_dropReturn]
  have absent : '\n' ∉ ['\r'] := by decide
  have blank : ['\r'].all Text.isBlank = true := by decide
  obtain ⟨front, last, split, longer⟩ := Text.fields_append_of_notMem absent line.toList
  have chars : (line ++ "\r").toList = line.toList ++ ['\r'] := String.toList_append
  rw [pieces, pieces, chars, longer, split, List.map_append, List.map_append, List.map_singleton,
    List.map_singleton, row?_eq_of_trimmed]
  simpa using Text.trimmed_append_blank last blank

theorem map_row?_withEnds (ended : List (String × Bool)) (last : String) :
    (Text.lines (withEnds ended last)).map row? =
      (ended.map (·.1)).flatMap (fun line => (Text.broken line).map row?) ++
        (Text.lines last).map row? := by
  induction ended with
  | nil => simp [withEnds, String.join]
  | cons first ended ih =>
      obtain ⟨line, returns⟩ := first
      have longer : withEnds ((line, returns) :: ended) last =
          (if returns then line ++ "\r" else line) ++ "\n" ++ withEnds ended last := by
        cases returns <;> simp [withEnds, String.join_cons, String.append_assoc]
      rw [longer, Text.lines_append, List.map_append, ih, List.map_cons, List.flatMap_cons,
        List.append_assoc]
      cases returns
      · rfl
      · rw [if_pos rfl, map_row?_broken_return]

theorem read_eq (content : String) : read content =
    (addRows 1 .empty (Text.lines content)).mapError fun failed =>
      .malformedVersionTable failed.1 failed.2 := by
  unfold read parse
  cases addRows 1 .empty (Text.lines content) <;> rfl

theorem read_eq_ok {content : String} :
    read content = .ok table ↔ addRows 1 .empty (Text.lines content) = .ok table := by
  rw [read_eq]
  cases addRows 1 .empty (Text.lines content) <;> simp [Except.mapError]

theorem read_eq_error {content : String} {failure : Failure} : read content = .error failure ↔
    ∃ place flaw, FirstFlaw (Text.lines content) place flaw ∧
      failure = .malformedVersionTable (place + 1) flaw := by
  have failed : read content = .error failure ↔ ∃ failed : Nat × Flaw,
      addRows 1 .empty (Text.lines content) = .error failed ∧
        failure = .malformedVersionTable failed.1 failed.2 := by
    rw [read_eq]
    cases addRows 1 .empty (Text.lines content) <;> simp [Except.mapError, eq_comm]
  simp only [failed, addRows_eq_error, Prod.exists]
  constructor
  · rintro ⟨_, flaw, ⟨place, first, rfl⟩, rfl⟩
    exact ⟨place, flaw, first, by rw [Nat.add_comm]⟩
  · rintro ⟨place, flaw, first, rfl⟩
    exact ⟨_, flaw, ⟨place, first, rfl⟩, by rw [Nat.add_comm]⟩

theorem unnumbered_eq (content : String) : unnumbered (read content) =
    ((addRows 1 .empty (Text.lines content)).mapError (·.2)).mapError (.malformedVersionTable 0) := by
  rw [read_eq]
  cases addRows 1 .empty (Text.lines content) <;> rfl

theorem unnumbered_read {content other : String}
    (rows : ∀ line, (Text.lines content).filter (Names line ·) = (Text.lines other).filter (Names line ·))
    (unfit : (Text.lines content).filter (¬ Fits ·) = (Text.lines other).filter (¬ Fits ·)) :
    unnumbered (read content) = unnumbered (read other) := by
  rw [unnumbered_eq, unnumbered_eq, addRows_rearranged rows unfit]

theorem read_of_rows {content other : String}
    (same : (Text.lines content).map row? = (Text.lines other).map row?) :
    read content = read other := by
  rw [read_eq, read_eq, addRows_congr same]

end Reading

/-- A text is read if all its lines fit, to the table of what the last row of each release line says; else
the first line with a flaw is reported. It does not matter which lines are passed over or where, in what
order rows of different release lines stand, which fields follow the third, and how lines end. -/
theorem read_lastRows (content : String) :
    ((∃ table, read content = .ok table) ↔ ∀ text ∈ Text.lines content, Fits text) ∧
    (∀ table, read content = .ok table → table.Holds (Text.lines content)) ∧
    (∀ failure, read content = .error failure ↔ ∃ place flaw,
      FirstFlaw (Text.lines content) place flaw ∧ failure = .malformedVersionTable (place + 1) flaw) ∧
    (∀ other, (Text.lines content).filter (¬ Idle ·) = (Text.lines other).filter (¬ Idle ·) →
      unnumbered (read content) = unnumbered (read other)) ∧
    (∀ other,
      (∀ line, (Text.lines content).filter (Names line ·) = (Text.lines other).filter (Names line ·)) →
      (Text.lines content).filter (¬ Fits ·) = (Text.lines other).filter (¬ Fits ·) →
      unnumbered (read content) = unnumbered (read other)) ∧
    (∀ other, List.Forall₂ SameFields (Text.lines content) (Text.lines other) →
      read content = read other) ∧
    ∀ ended others last, content = withEnds ended last → ended.map (·.1) = others.map (·.1) →
      read content = read (withEnds others last) := by
  refine ⟨?_, ?_, fun failure => read_eq_error, ?_, ?_, ?_, ?_⟩
  · simp only [read_eq_ok]
    exact exists_addRows
  · exact fun table result => holds_of_addRows (read_eq_ok.mp result)
  · intro other same
    refine unnumbered_read (fun line => ?_) ?_
    · rw [← filter_names_idle, same, filter_names_idle]
    · rw [← filter_unfit_idle, same, filter_unfit_idle]
  · exact fun other => unnumbered_read
  · exact fun other same => read_of_rows (map_row?_of_sameFields same)
  · rintro ended others last rfl same
    refine read_of_rows ?_
    rw [map_row?_withEnds, same, map_row?_withEnds]

/-- A comment, a row, two rows of another release line around a blank line. -/
def sampleTable : String := "# agp;gradle;kotlin\n8.10; 8.9 ;2.0\r\n8.2;8.1;1.9\n\n8.2 ;8.2;1.9.0;old"

theorem read_lastRows_sampleTable :
    (∃ table, read sampleTable = .ok table ∧ table.get? ⟨8, 2⟩ = some ⟨"8.2", "1.9.0"⟩ ∧
      table.get? ⟨8, 3⟩ = none ∧ ⟨8, 10⟩ ∈ table.keys) ∧
    read "8.2;8.1;1.9\n\n8;x;y" = .error (.malformedVersionTable 3 (.notALine "8")) ∧
    unnumbered (read sampleTable) =
      unnumbered (read "8.10; 8.9 ;2.0\n8.2;8.1;1.9\n8.2 ;8.2;1.9.0;old") ∧
    unnumbered (read "8.10;8.9;2.0\n8.2;8.1;1.9") = unnumbered (read "8.2;8.1;1.9\n8.10;8.9;2.0") ∧
    read sampleTable = read "# agp;gradle;kotlin\n8.10; 8.9 ;2.0\n8.2;8.1;1.9\r\n\n8.2 ;8.2;1.9.0;old" ∧
    read "8.2;8.2;1.9.0;old" = read "8.2;8.2;1.9.0" := by
  obtain ⟨fits, holds, -, passedOver, -, -, ends⟩ := read_lastRows sampleTable
  refine ⟨?_, ?_, passedOver _ (by decide +kernel), ?_, ?_, ?_⟩
  · obtain ⟨table, result⟩ := fits.mpr (by decide +kernel)
    have held := holds table result
    have last : Pairs "8.2 ;8.2;1.9.0;old" ⟨8, 2⟩ ⟨"8.2", "1.9.0"⟩ := row?_eq_some.mp (by decide +kernel)
    have named : table.get? ⟨8, 2⟩ = some ⟨"8.2", "1.9.0"⟩ := (held.last _ _).mpr
      ⟨["# agp;gradle;kotlin", "8.10; 8.9 ;2.0", "8.2;8.1;1.9", ""], _, [], by decide +kernel, last,
        List.forall_mem_nil _⟩
    exact ⟨table, result, named, (held.absent _).mpr (by decide +kernel),
      (held.listed _).mpr (by decide +kernel)⟩
  · have flawed : Flawed "8;x;y" (.notALine "8") := row?_eq_error.mp (by decide +kernel)
    exact ((read_lastRows _).2.2.1 _).mpr ⟨2, _, ⟨⟨_, by decide +kernel, flawed⟩, by decide +kernel⟩, rfl⟩
  · refine (read_lastRows _).2.2.2.2.1 _ (fun line => ?_) (by decide +kernel)
    have first : Names ⟨8, 10⟩ "8.10;8.9;2.0" := by decide +kernel
    have second : Names ⟨8, 2⟩ "8.2;8.1;1.9" := by decide +kernel
    have texts : Text.lines "8.10;8.9;2.0\n8.2;8.1;1.9" = ["8.10;8.9;2.0", "8.2;8.1;1.9"] := by
      decide +kernel
    have swapped : Text.lines "8.2;8.1;1.9\n8.10;8.9;2.0" = ["8.2;8.1;1.9", "8.10;8.9;2.0"] := by
      decide +kernel
    rw [texts, swapped]
    by_cases named : Names line "8.10;8.9;2.0"
    · obtain rfl := named.unique first
      decide +kernel
    · simp [named, List.filter_cons]
  · exact ends
      [("# agp;gradle;kotlin", false), ("8.10; 8.9 ;2.0", true), ("8.2;8.1;1.9", false), ("", false)]
      [("# agp;gradle;kotlin", false), ("8.10; 8.9 ;2.0", false), ("8.2;8.1;1.9", true), ("", false)]
      "8.2 ;8.2;1.9.0;old" (by decide +kernel) rfl
  · have longer : HasFields "8.2;8.2;1.9.0;old" "8.2" "8.2" "1.9.0" :=
      ⟨.inr ⟨"old", by decide⟩, by decide, by decide, by decide⟩
    have shorter : HasFields "8.2;8.2;1.9.0" "8.2" "8.2" "1.9.0" :=
      ⟨.inl (by decide), by decide, by decide, by decide⟩
    have texts : Text.lines "8.2;8.2;1.9.0;old" = ["8.2;8.2;1.9.0;old"] := by decide +kernel
    have texts' : Text.lines "8.2;8.2;1.9.0" = ["8.2;8.2;1.9.0"] := by decide +kernel
    refine (read_lastRows _).2.2.2.2.2.1 _ ?_
    rw [texts, texts']
    exact .cons (.inr ⟨"8.2", "8.2", "1.9.0", longer, shorter⟩) .nil

end VersionTable
end Cookbook
