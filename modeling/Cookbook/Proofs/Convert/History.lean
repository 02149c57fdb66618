import Cookbook.Convert.Batch
import Cookbook.Proofs.Convert.Sparing
import Cookbook.Proofs.Recipe.Discovery

/-!
Histories of batches: the recipes in the order in which they are visited, each with the session that its
conversion starts in. What a batch reports is noted visit by visit, and what every visit keeps the batch
keeps. A recipe that was converted stays so unless a later visit overwrites it.
-/

namespace Cookbook

open Action

theorem Index.fileName_proper : ProperName fileName := by decide

/-- A recipe in a batch, with the session in which its conversion starts. -/
structure Visit where
  folder : Path
  session : Session

namespace Converter

variable {converter : Converter} {source destination : Path} {session after : Session}
  {folders : List Path} {batch : Batch} {earlier later : List Visit} {visit : Visit}
  {conversion : Conversion} {place : Location}

/-! ## Visits -/

/-- The session that a visit leaves, whether the recipe is converted or not. -/
def leaves (converter : Converter) (destination : Path) (visit : Visit) : Session :=
  (converter.convert visit.folder destination).left visit.session

/-- The conversion of a recipe that is visited, if it is converted. -/
def conversion? (converter : Converter) (destination : Path) (visit : Visit) : Option Conversion :=
  ((converter.convert visit.folder destination).value? visit.session).filter (·.succeeded)

def visits (converter : Converter) (destination : Path) : List Path → Session → List Visit
  | [], _ => []
  | folder :: folders, session =>
      ⟨folder, session⟩ ::
        converter.visits destination folders (converter.leaves destination ⟨folder, session⟩)

/-- The visits of all recipes below a folder. -/
def history (converter : Converter) (source destination : Path) (session : Session) : List Visit :=
  let begun := (createFolders destination).left session
  match findRecipes begun.disk source with
  | .ok recipes => converter.visits destination recipes begun
  | .error _ => []

theorem conversion?_eq_some :
    converter.conversion? destination visit = some conversion ↔
      (converter.convert visit.folder destination).run visit.session =
        .ok conversion (converter.leaves destination visit) ∧ conversion.outcome = .converted := by
  rw [conversion?, Option.filter_eq_some_iff, Conversion.succeeded, decide_eq_true_iff]
  refine and_congr_left fun _ => ⟨run_eq_ok, ?_⟩
  intro run
  rw [value?, run]

theorem folders_visits (converter : Converter) (destination : Path) (folders : List Path)
    (session : Session) : (converter.visits destination folders session).map (·.folder) = folders := by
  induction folders generalizing session with
  | nil => rfl
  | cons folder folders ih => rw [visits, List.map_cons, ih]

theorem visits_found {recipes : List Path} (sound : session.disk.Sound)
    (found : findRecipes session.disk source = .ok recipes) :
    ∀ visit ∈ converter.visits destination recipes session,
      ∃ names, names ≠ [] ∧ (∀ name ∈ names, ProperName name) ∧
        visit.folder = source.joinNames names ∧
        session.disk.files (session.disk.place visit.folder ++ [Descriptor.fileName]) ≠ none := by
  intro visit member
  refine mem_findRecipes sound found ?_
  rw [← converter.folders_visits destination recipes session]
  exact List.mem_map_of_mem member

theorem visits_placed {recipes : List Path} (sound : session.disk.Sound)
    (found : findRecipes session.disk source = .ok recipes) :
    ∀ visit ∈ converter.visits destination recipes session,
      visit.folder.name ≠ "" ∧ session.disk.place source <+: session.disk.place visit.folder := by
  intro visit member
  obtain ⟨names, nonempty, proper, same, -⟩ := visits_found sound found visit member
  rw [same, Disk.place_joinNames _ _ proper]
  exact ⟨(Path.proper_name_joinNames source nonempty proper).nonempty, List.prefix_append _ _⟩

theorem visits_session {P : Session → Prop} (start : P session)
    (steps : ∀ visit ∈ converter.visits destination folders session,
      P visit.session → P (converter.leaves destination visit)) :
    ∀ visit ∈ converter.visits destination folders session, P visit.session := by
  induction folders generalizing session with
  | nil => exact List.forall_mem_nil _
  | cons folder folders ih =>
      rw [visits, List.forall_mem_cons] at steps ⊢
      exact ⟨start, ih (steps.1 start) steps.2⟩

/-! ## What visits leave -/

theorem convertEach_left (batch : Batch) (folder : Path) (folders : List Path) :
    (converter.convertEach destination batch (folder :: folders)).left session =
      (converter.convertEach destination
        (batch.note folder.name ((converter.convert folder destination).outcome session))
        folders).left (converter.leaves destination ⟨folder, session⟩) :=
  left_bind_of_ok (attempt_run _ session)

theorem convertEach_keeps {P : Session → Prop} (batch : Batch) (start : P session)
    (steps : ∀ visit ∈ converter.visits destination folders session,
      P visit.session → P (converter.leaves destination visit)) :
    P ((converter.convertEach destination batch folders).left session) := by
  induction folders generalizing session batch with
  | nil => exact start
  | cons folder folders ih =>
      rw [visits, List.forall_mem_cons] at steps
      rw [convertEach_left]
      exact ih _ (steps.1 start) steps.2

theorem convertEach_keeps_after {P : Session → Prop} (batch : Batch)
    (split : converter.visits destination folders session = earlier ++ visit :: later)
    (start : P (converter.leaves destination visit))
    (steps : ∀ other ∈ later, P other.session → P (converter.leaves destination other)) :
    P ((converter.convertEach destination batch folders).left session) := by
  induction folders generalizing session batch earlier with
  | nil => simp [visits] at split
  | cons folder folders ih =>
      rw [convertEach_left]
      cases earlier with
      | nil =>
          rw [visits, List.nil_append, List.cons.injEq] at split
          obtain ⟨rfl, rfl⟩ := split
          exact convertEach_keeps _ start steps
      | cons first earlier =>
          rw [visits, List.cons_append, List.cons.injEq] at split
          exact ih _ split.2

/-! ## What batches report -/

def note (converter : Converter) (destination : Path) (batch : Batch) (visit : Visit) : Batch :=
  batch.note visit.folder.name ((converter.convert visit.folder destination).outcome visit.session)

theorem convertEach_run (batch : Batch) (folders : List Path) (session : Session) :
    (converter.convertEach destination batch folders).run session =
      .ok ((converter.visits destination folders session).foldl (converter.note destination) batch)
        ((converter.convertEach destination batch folders).left session) := by
  induction folders generalizing session batch with
  | nil => rfl
  | cons folder folders ih =>
      rw [convertEach_left, convertEach, run_bind_of_ok (attempt_run _ session)]
      exact ih _ _

theorem note_cases (destination : Path) (batch : Batch) (visit : Visit) :
    (converter.conversion? destination visit = none ∧
      (converter.note destination batch visit).converted = batch.converted ∧
      (converter.note destination batch visit).index = batch.index) ∨
    ∃ conversion, converter.conversion? destination visit = some conversion ∧
      (converter.note destination batch visit).converted = batch.converted ++ [visit.folder.name] ∧
      (converter.note destination batch visit).index = batch.index.add conversion.descriptor := by
  unfold note outcome conversion? value?
  cases (converter.convert visit.folder destination).run visit.session with
  | error failure after => exact .inl ⟨rfl, rfl, rfl⟩
  | ok conversion after =>
      cases outcome : conversion.outcome with
      | nonCompliant =>
          exact .inl ⟨by simp [Conversion.succeeded, outcome], by simp [Batch.note, outcome],
            by simp [Batch.note, outcome]⟩
      | converted =>
          exact .inr ⟨conversion, by simp [Conversion.succeeded, outcome],
            by simp [Batch.note, outcome], by simp [Batch.note, outcome]⟩

theorem converted_foldl (visits : List Visit) (batch : Batch) :
    (visits.foldl (converter.note destination) batch).converted = batch.converted ++
      (visits.filter fun visit => (converter.conversion? destination visit).isSome).map
        (·.folder.name) := by
  induction visits generalizing batch with
  | nil => simp
  | cons visit visits ih =>
      rw [List.foldl_cons, ih]
      obtain ⟨conversion, converted, -⟩ | ⟨conversion, done, converted, -⟩ :=
        converter.note_cases destination batch visit
      · simp [conversion, converted]
      · simp [done, converted]

theorem convertAll_left (converter : Converter) (source destination : Path) (session : Session) :
    (converter.convertAll source destination).left session = session ∨
      (converter.convertAll source destination).left session =
        (createFolders destination).left session ∨
      ∃ recipes text, session.disk.createFolders destination =
          (((createFolders destination).left session).disk, .ok ()) ∧
        findRecipes ((createFolders destination).left session).disk source = .ok recipes ∧
        ((converter.convertAll source destination).left session).disk =
          ((writeText (Batch.indexPath destination) text).left
            ((converter.convertEach destination {} recipes).left
              ((createFolders destination).left session))).disk := by
  have looked : (isFolder source).run session = .ok (session.disk.isFolder source) session := rfl
  unfold convertAll
  rw [left_bind_of_ok looked]
  cases session.disk.isFolder source with
  | false => exact .inl rfl
  | true =>
      right
      simp only [Bool.not_true, Bool.false_eq_true, if_false]
      cases creating : (createFolders destination).run session with
      | error failure begun =>
          rw [left_bind_of_error creating, left_of_error creating]
          exact .inl rfl
      | ok _ begun =>
          have got : (get : Action Session).run begun = .ok begun begun := rfl
          rw [left_bind_of_ok creating, left_of_ok creating, left_bind_of_ok got]
          cases found : findRecipes begun.disk source with
          | error failure => exact .inl rfl
          | ok recipes =>
              right
              rw [left_bind_of_ok (ofExcept_eq_ok.mpr ⟨rfl, rfl⟩),
                left_bind_of_ok (convertEach_run {} recipes begun)]
              obtain ⟨disk, made, rfl⟩ := createFolders_eq_ok.mp creating
              exact ⟨recipes, _, made, rfl, disk_left_bind (writeText _ _) (fun _ => keeps_pure _) _⟩

theorem convertAll_eq_ok
    (run : (converter.convertAll source destination).run session = .ok batch after) :
    ∃ begun recipes, (createFolders destination).run session = .ok () begun ∧
      findRecipes begun.disk source = .ok recipes ∧
      converter.history source destination session =
        converter.visits destination recipes begun ∧
      batch = (converter.visits destination recipes begun).foldl (converter.note destination) {} ∧
      (writeText (Batch.indexPath destination)
        (Index.render batch.index (converter.mode.target?.map (·.release)))).run
        ((converter.convertEach destination {} recipes).left begun) = .ok () after := by
  unfold convertAll at run
  obtain ⟨between, isFolder, run⟩ := throwUnless_eq_ok.mp run
  obtain ⟨-, rfl⟩ := isFolder_eq_ok.mp isFolder
  rw [bind_eq_ok] at run
  obtain ⟨⟨⟩, begun, creating, run⟩ := run
  simp only [bind_eq_ok] at run
  obtain ⟨_, _, ⟨⟩, recipes, _, finding, run⟩ := run
  obtain ⟨found, rfl⟩ := ofExcept_eq_ok.mp finding
  obtain ⟨visited, ended, converting, ⟨⟩, written, writing, done⟩ := run
  rw [convertEach_run] at converting
  cases converting
  obtain ⟨rfl, rfl⟩ := pure_eq_ok.mp done
  refine ⟨begun, recipes, creating, found, ?_, rfl, writing⟩
  rw [history, left_of_ok creating, found]

end Converter

end Cookbook
