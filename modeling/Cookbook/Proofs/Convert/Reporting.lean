import Cookbook.Proofs.Convert.Skipping

/-!
Reports of batches. Every visit ends in one of three ways, so the lists of a report share the recipes
out; and the index that can be read afterwards is made of the recipes that were converted.
-/

namespace Cookbook

open Action

namespace Converter

variable {converter : Converter} {source destination : Path} {session after : Session}
  {batch : Batch} {visit : Visit} {conversion : Conversion}

/-! ## Visits -/

theorem visit_ends (converter : Converter) (destination : Path) (visit : Visit) :
    let converted := (converter.conversion? destination visit).isSome
    let skipped := converter.skips destination visit
    let failed := (converter.failure? destination visit).isSome
    (converted = true ∧ skipped = false ∧ failed = false) ∨
      (converted = false ∧ skipped = true ∧ failed = false) ∨
      (converted = false ∧ skipped = false ∧ failed = true) := by
  unfold conversion? skips failure? value?
  cases (converter.convert visit.folder destination).run visit.session with
  | error failure after => simp
  | ok conversion after => cases done : conversion.succeeded <;> simp [Option.filter, done]

theorem descriptor?_of_conversion?
    (converted : converter.conversion? destination visit = some conversion) :
    converter.descriptor? visit = some conversion.descriptor := by
  obtain ⟨loaded, load, -⟩ := conversion_destination converted
  rw [descriptor?, value?, load]

theorem index_foldl (visits : List Visit) (batch : Batch) :
    (visits.foldl (converter.note destination) batch).index =
      ((visits.filterMap (converter.conversion? destination)).map (·.descriptor)).foldl Index.add
        batch.index := by
  induction visits generalizing batch with
  | nil => rfl
  | cons visit visits ih =>
      rw [List.foldl_cons, ih]
      obtain ⟨conversion, -, index⟩ | ⟨conversion, done, -, index⟩ :=
        converter.note_cases destination batch visit
      · rw [List.filterMap_cons_none conversion, index]
      · rw [List.filterMap_cons_some done, index]
        rfl

theorem failed_names (visits : List Visit) :
    (visits.filterMap fun visit =>
      (converter.failure? destination visit).map (visit.folder.name, ·)).map (·.1) =
      (visits.filter fun visit => (converter.failure? destination visit).isSome).map
        (·.folder.name) := by
  induction visits with
  | nil => rfl
  | cons visit visits ih =>
      cases failed : converter.failure? destination visit <;> simp [failed, ih]

theorem outcomes_perm (converter : Converter) (destination : Path) (visits : List Visit) :
    (visits.filter (fun visit => (converter.conversion? destination visit).isSome) ++
      visits.filter (converter.skips destination) ++
      visits.filter (fun visit => (converter.failure? destination visit).isSome)).Perm visits := by
  induction visits with
  | nil => exact .nil
  | cons visit visits ih =>
      obtain ⟨converted, skipped, failed⟩ | ⟨converted, skipped, failed⟩ |
          ⟨converted, skipped, failed⟩ := converter.visit_ends destination visit
      all_goals simp only [List.filter_cons, converted, skipped, failed, if_true, if_false,
        Bool.false_eq_true]
      · exact ih.cons visit
      · rw [List.append_assoc, List.cons_append]
        rw [List.append_assoc] at ih
        exact List.perm_middle.trans (ih.cons visit)
      · exact List.perm_middle.trans (ih.cons visit)

theorem index_read (sound : session.disk.Sound)
    (run : (converter.convertAll source destination).run session = .ok batch after) :
    after.disk.readText (Batch.indexPath destination) =
      .ok (Index.render batch.index (converter.mode.target?.map (·.release))) := by
  obtain ⟨begun, recipes, creating, -, -, -, writing⟩ := convertAll_eq_ok run
  have created := Copy.createFolders_becomes sound creating
  have ended := created.trans (convertEach_becomes (created.sound sound) converter destination recipes)
  obtain ⟨disk, written, rfl⟩ := change_eq_ok.mp writing
  exact Disk.readText_writeFile (ended.sound sound) written

/-- The lists of a report share out the recipes that were found before the first conversion, each in
their order. The index that is read back afterwards is that of the descriptors of those converted, and
names the release if the batch is for one. -/
theorem report_matches_index (sound : session.disk.Sound)
    (run : (converter.convertAll source destination).run session = .ok batch after) :
    let history := converter.history source destination session
    ∃ begun recipes, (createFolders destination).run session = .ok () begun ∧
      findRecipes begun.disk source = .ok recipes ∧ history.map (·.folder) = recipes ∧
      (batch.converted ++ batch.skipped ++ batch.failed.map (·.1)).Perm (recipes.map (·.name)) ∧
      (∀ visit ∈ history, [(converter.conversion? destination visit).isSome,
        converter.skips destination visit,
        (converter.failure? destination visit).isSome].count true = 1) ∧
      batch.converted = (history.filter fun visit =>
        (converter.conversion? destination visit).isSome).map (·.folder.name) ∧
      batch.skipped = (history.filter (converter.skips destination)).map (·.folder.name) ∧
      batch.failed.map (·.1) = (history.filter fun visit =>
        (converter.failure? destination visit).isSome).map (·.folder.name) ∧
      (∀ visit ∈ history, ∀ conversion,
        converter.conversion? destination visit = some conversion →
          converter.descriptor? visit = some conversion.descriptor) ∧
      after.disk.readText (Batch.indexPath destination) = .ok (Index.render
        (((history.filterMap (converter.conversion? destination)).map (·.descriptor)).foldl
          Index.add .empty)
        (match converter.mode with
          | .release target => some target.release
          | .source | .workingCopy => none)) := by
  obtain ⟨begun, recipes, creating, found, history, reported, -⟩ := convertAll_eq_ok run
  rw [← history] at reported
  have converted := congrArg Batch.converted reported
  have skipped := congrArg Batch.skipped reported
  have failed := congrArg (·.failed.map (·.1)) reported
  have index := congrArg Batch.index reported
  rw [converted_foldl, List.nil_append] at converted
  rw [skipped_foldl, List.nil_append] at skipped
  simp only [failed_foldl, List.nil_append, failed_names] at failed
  rw [index_foldl] at index
  have folders : (converter.history source destination session).map (·.folder) = recipes := by
    rw [history, folders_visits]
  refine ⟨begun, recipes, creating, found, folders, ?_, ?_, converted, skipped, failed, ?_, ?_⟩
  · rw [converted, skipped, failed, ← List.map_append, ← List.map_append, ← folders, List.map_map]
    exact (outcomes_perm converter destination _).map _
  · intro visit _
    obtain ⟨converted, skipped, failed⟩ | ⟨converted, skipped, failed⟩ |
        ⟨converted, skipped, failed⟩ := converter.visit_ends destination visit
    all_goals rw [converted, skipped, failed]; rfl
  · exact fun visit _ conversion => descriptor?_of_conversion?
  · have release : converter.mode.target?.map (·.release) = match converter.mode with
        | .release target => some target.release
        | .source | .workingCopy => none := by
      cases converter.mode <;> rfl
    rw [← release, ← show batch.index = _ from index]
    exact index_read sound run

/-- Three recipes of which one is malformed, one supports release 8.1.0 and one does not. -/
def mixedRecipes : Session where
  disk := {
    root := .folder "recipes"
      (.folder "bad" (.file "recipe_metadata.toml" ⟨"[agpVersion".toUTF8, false⟩ .empty)
        (.folder "new"
          (.file "recipe_metadata.toml" ⟨"[agpVersion]\nmin = \"8.1.0\"".toUTF8, false⟩ .empty)
          (.folder "old"
            (.file "recipe_metadata.toml"
              ⟨"[agpVersion]\nmin = \"8.0.0\"\nmax = \"8.0\"".toUTF8, false⟩ .empty)
            .empty)))
      .empty
    here := [] }

theorem mixedRecipes_sound : mixedRecipes.disk.Sound := ⟨by decide +kernel, by simp [mixedRecipes]⟩

/-- What becomes of the recipes, and that none of them asks for the place of the index. -/
theorem mixedRecipes_history :
    let history := (releasing false).history ⟨"recipes"⟩ ⟨"out"⟩ mixedRecipes
    (((releasing false).convertAll ⟨"recipes"⟩ ⟨"out"⟩).value? mixedRecipes).isSome ∧
      (history.filter fun visit => ((releasing false).conversion? ⟨"out"⟩ visit).isSome).map
        (·.folder.name) = ["new"] ∧
      (history.filter ((releasing false).skips ⟨"out"⟩)).map (·.folder.name) = ["old"] ∧
      (history.filter fun visit => ((releasing false).failure? ⟨"out"⟩ visit).isSome).map
        (·.folder.name) = ["bad"] ∧
      (history.filterMap ((releasing false).conversion? ⟨"out"⟩)).map (·.descriptor) =
        [⟨"new", "new", "new", ⟨8, 1, 0, .final, 0⟩, none, [], none, []⟩] ∧
      ∀ descriptor ∈ history.filterMap (releasing false).descriptor?,
        (releasing false).mode.destinationName descriptor ∉ [".", "..", Index.fileName] := by
  decide +kernel

theorem report_matches_index_mixedRecipes :
    ∃ batch after,
      ((releasing false).convertAll ⟨"recipes"⟩ ⟨"out"⟩).run mixedRecipes = .ok batch after ∧
      batch.converted = ["new"] ∧ batch.skipped = ["old"] ∧ batch.failed.map (·.1) = ["bad"] ∧
      after.disk.readText (Batch.indexPath ⟨"out"⟩) = .ok (Index.render
        (Index.add .empty ⟨"new", "new", "new", ⟨8, 1, 0, .final, 0⟩, none, [], none, []⟩)
        (some ⟨8, 1, 0, .final, 0⟩)) := by
  obtain ⟨given, new, old, bad, listed, -⟩ := mixedRecipes_history
  obtain ⟨batch, given⟩ := Option.isSome_iff_exists.mp given
  have run := run_eq_ok given
  obtain ⟨begun, recipes, -, -, -, -, -, converted, skipped, failed, -, read⟩ :=
    report_matches_index mixedRecipes_sound run
  refine ⟨batch, _, run, converted.trans new, skipped.trans old, failed.trans bad, ?_⟩
  rw [listed] at read
  exact read

end Converter

end Cookbook
