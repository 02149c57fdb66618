import Cookbook.Proofs.Convert.Lasting

/-!
Recipes that a batch passes over. One that does not support the release is skipped if its folder in the
destination can be written to. That is checked first, so that otherwise the recipe is reported as failed.
-/

namespace Cookbook

open Action

variable {session first second after : Session} {folder : Path}

theorem Descriptor.load_isFolder {context : Context} {descriptor : Descriptor}
    (named : folder.name ≠ "")
    (run : (load folder context).run session = .ok descriptor after) :
    session.disk.isFolder folder = true := by
  obtain ⟨content, -, read, -⟩ := load_eq_ok run
  unfold Disk.readText Disk.readFile at read
  simp only [except_bind_eq_ok] at read
  obtain ⟨data, ⟨entry, found, -⟩, -⟩ := read
  refine Disk.isFolder_of_entry fileName_proper ?_ found
  intro empty
  apply named
  rw [show folder = ⟨""⟩ from congrArg Path.mk empty]
  rfl

theorem change_alike (path : Path) (f : Disk → Except DiskFault Disk) :
    Alike SameDisk (change path f) := by
  intro first second same
  have looked : AlikeIn SameDisk (look path f) first second := alikeIn_look same (by rw [same])
  refine looked.bind ?_
  intro disk _
  exact ⟨rfl, rfl⟩

theorem clearFolder_alike (folder : Path) : Alike SameDisk (clearFolder folder) := by
  intro first second same
  have looked : AlikeIn SameDisk (look folder (·.list folder)) first second :=
    alikeIn_look same (by rw [same])
  refine looked.bind ?_
  intro tree _
  refine alike_forM ?_ _ _ looked.left
  rintro ⟨name, entry⟩ -
  dsimp only
  unfold clearEntry
  split
  · exact change_alike _ _
  · exact fun _ _ same => alikeIn_pure same ()

namespace Converter

variable {converter : Converter} {source destination target : Path} {batch : Batch} {visit : Visit}
  {descriptor : Descriptor}

/-! ## Outcomes -/

/-- The descriptor of a recipe that is visited, if it can be loaded. -/
def descriptor? (converter : Converter) (visit : Visit) : Option Descriptor :=
  (Descriptor.load visit.folder converter.context).value? visit.session

def skips (converter : Converter) (destination : Path) (visit : Visit) : Bool :=
  ((converter.convert visit.folder destination).value? visit.session).any (!·.succeeded)

def failure? (converter : Converter) (destination : Path) (visit : Visit) : Option Failure :=
  match (converter.convert visit.folder destination).run visit.session with
  | .ok _ _ => none
  | .error failure _ => some failure

theorem failure?_eq_none (converter : Converter) (destination : Path) (visit : Visit) :
    converter.failure? destination visit = none ↔
      (converter.conversion? destination visit).isSome ∨ converter.skips destination visit = true := by
  unfold failure? conversion? skips value?
  cases (converter.convert visit.folder destination).run visit.session with
  | error failure after => simp
  | ok conversion after => cases done : conversion.succeeded <;> simp [Option.filter, done]

theorem note_reports (destination : Path) (batch : Batch) (visit : Visit) :
    (converter.note destination batch visit).skipped = batch.skipped ++
        (if converter.skips destination visit then [visit.folder.name] else []) ∧
      (converter.note destination batch visit).failed = batch.failed ++
        ((converter.failure? destination visit).map (visit.folder.name, ·)).toList := by
  unfold note outcome skips failure? value?
  cases (converter.convert visit.folder destination).run visit.session with
  | error failure after => simp [Batch.note]
  | ok conversion after =>
      cases outcome : conversion.outcome <;>
        simp [Batch.note, Conversion.succeeded, outcome]

theorem skipped_foldl (visits : List Visit) (batch : Batch) :
    (visits.foldl (converter.note destination) batch).skipped = batch.skipped ++
      (visits.filter (converter.skips destination)).map (·.folder.name) := by
  induction visits generalizing batch with
  | nil => simp
  | cons visit visits ih =>
      rw [List.foldl_cons, ih, (note_reports destination batch visit).1, List.filter_cons]
      split <;> simp

theorem failed_foldl (visits : List Visit) (batch : Batch) :
    (visits.foldl (converter.note destination) batch).failed = batch.failed ++
      visits.filterMap fun visit =>
        (converter.failure? destination visit).map (visit.folder.name, ·) := by
  induction visits generalizing batch with
  | nil => simp
  | cons visit visits ih =>
      rw [List.foldl_cons, ih, (note_reports destination batch visit).2, List.filterMap_cons]
      cases converter.failure? destination visit <;> simp

/-! ## Refusals -/

/-- That a folder is absent or empty, or can be made so. -/
def Clearable (converter : Converter) (target : Path) (session : Session) : Prop :=
  session.disk.isFile target = false ∧ ∀ tree, session.disk.list target = .ok tree →
    tree.entries = [] ∨ converter.overwrite = true ∧
      ∃ cleared, (clearFolder target).run session = .ok () cleared

theorem clearDestination_ok_iff :
    (∃ cleared, (converter.clearDestination target).run session = .ok () cleared) ↔
      converter.Clearable target session := by
  rw [Clearable, clearDestination_run]
  cases session.disk.isFile target with
  | true => simp
  | false =>
      cases list : session.disk.list target with
      | error fault => simp
      | ok tree =>
          simp only [Bool.false_eq_true, if_false, true_and, Except.ok.injEq, forall_eq']
          cases entries : tree.entries with
          | nil => simp
          | cons entry entries => cases overwrite : converter.overwrite <;> simp

theorem Clearable.congr (clearable : converter.Clearable target first) (same : SameDisk first second) :
    converter.Clearable target second := by
  obtain ⟨aside, clearable⟩ := clearable
  refine ⟨by rw [same, aside], ?_⟩
  rw [same]
  intro tree list
  obtain nothing | ⟨overwrite, cleared, clear⟩ := clearable tree list
  · exact .inl nothing
  · have alike := clearFolder_alike target first second same
    exact .inr ⟨overwrite, _, run_of_outcome_ok (alike.outcome ▸ outcome_of_ok clear)⟩

theorem convert_of_notFolder (destination : Path) (missing : session.disk.isFolder source = false) :
    (converter.convert source destination).run session = .error (.notAFolder source) session := by
  have looked : (isFolder source).run session = .ok false session :=
    isFolder_eq_ok.mpr ⟨missing, rfl⟩
  rw [convert_eq, run_bind_of_ok looked]
  rfl

theorem convert_isFolder {conversion : Conversion}
    (run : (converter.convert source destination).run session = .ok conversion after) :
    session.disk.isFolder source = true := by
  by_contra missing
  rw [convert_of_notFolder destination (Bool.eq_false_iff.mpr missing)] at run
  cases run

theorem convert_of_unloaded {loaded : Session} {failure : Failure} (destination : Path)
    (folder : session.disk.isFolder source = true)
    (load : (Descriptor.load source converter.context).run session = .error failure loaded) :
    (converter.convert source destination).run session = .error failure loaded := by
  have looked : (isFolder source).run session = .ok true session := isFolder_eq_ok.mpr ⟨folder, rfl⟩
  rw [convert_eq, run_bind_of_ok looked]
  exact run_bind_of_error load

theorem convert_of_load {loaded : Session} (destination : Path)
    (folder : session.disk.isFolder source = true)
    (load : (Descriptor.load source converter.context).run session = .ok descriptor loaded) :
    (converter.convert source destination).run session =
      (converter.carryOut source
        (destination.joinName (converter.mode.destinationName descriptor)) descriptor).run loaded := by
  have looked : (isFolder source).run session = .ok true session := isFolder_eq_ok.mpr ⟨folder, rfl⟩
  rw [convert_eq, run_bind_of_ok looked]
  exact run_bind_of_ok load

theorem carryOut_refused (source target : Path) (session : Session)
    (refused : converter.mode.accepts descriptor = false) :
    (∃ conversion after, conversion.succeeded = false ∧
        (converter.carryOut source target descriptor).run session = .ok conversion after) ∧
      converter.Clearable target session ∨
    (∃ failure after, (converter.carryOut source target descriptor).run session =
        .error failure after) ∧ ¬ converter.Clearable target session := by
  rw [← clearDestination_ok_iff]
  unfold carryOut
  cases clearing : (converter.clearDestination target).run session with
  | error failure after =>
      right
      rw [run_bind_of_error clearing]
      exact ⟨⟨failure, after, rfl⟩, by simp⟩
  | ok _ cleared =>
      left
      rw [run_bind_of_ok clearing, refused]
      exact ⟨⟨⟨descriptor, target, .nonCompliant⟩, cleared, rfl, rfl⟩, cleared, rfl⟩

theorem descriptor?_isFolder (named : visit.folder.name ≠ "")
    (loads : converter.descriptor? visit = some descriptor) :
    visit.session.disk.isFolder visit.folder = true :=
  Descriptor.load_isFolder named (run_eq_ok loads)

/-- A recipe that does not support the release is skipped exactly if its folder can be cleared. -/
theorem refused_skips_iff (destination : Path) (folder : visit.session.disk.isFolder visit.folder = true)
    (loads : converter.descriptor? visit = some descriptor)
    (refused : converter.mode.accepts descriptor = false) :
    (converter.skips destination visit = true ↔ converter.Clearable
      (destination.joinName (converter.mode.destinationName descriptor)) visit.session) ∧
    converter.conversion? destination visit = none := by
  have load := run_eq_ok loads
  have sameDisk : SameDisk visit.session _ := (Descriptor.load_sameDisk _ _).ok load
  have converting := convert_of_load destination folder load
  unfold skips conversion? value?
  rw [converting]
  obtain ⟨⟨conversion, after, unsuccessful, run⟩, clearable⟩ | ⟨⟨failure, after, run⟩, stuck⟩ :=
    carryOut_refused visit.folder (destination.joinName (converter.mode.destinationName descriptor))
      ((Descriptor.load visit.folder converter.context).left visit.session) refused
  · rw [run]
    simp [unsuccessful, Option.filter, clearable.congr sameDisk.symm]
  · rw [run]
    simp only [Option.any_none, Bool.false_eq_true, false_iff, Option.filter_none, and_true]
    exact fun clearable => stuck (clearable.congr sameDisk)

/-- What a batch reports as skipped and as failed, visit by visit. A recipe that does not support the
release is skipped if its folder can be cleared when it is visited, and failed if not; nothing failed
exactly if every recipe was converted or skipped. -/
theorem refused_recipes_skipped (sound : session.disk.Sound)
    (run : (converter.convertAll source destination).run session = .ok batch after) :
    let history := converter.history source destination session
    batch.skipped = (history.filter (converter.skips destination)).map (·.folder.name) ∧
      batch.failed = history.filterMap (fun visit =>
        (converter.failure? destination visit).map (visit.folder.name, ·)) ∧
      (∀ visit ∈ history, ∀ descriptor, converter.descriptor? visit = some descriptor →
        converter.mode.accepts descriptor = false →
        let target := destination.joinName (converter.mode.destinationName descriptor)
        (converter.skips destination visit = true ↔ converter.Clearable target visit.session) ∧
          ((converter.failure? destination visit).isSome = true ↔
            ¬ converter.Clearable target visit.session)) ∧
      (batch.hasFailures = false ↔ ∀ visit ∈ history,
        (converter.conversion? destination visit).isSome ∨
          converter.skips destination visit = true) := by
  obtain ⟨begun, recipes, creating, found, history, reported, -⟩ := convertAll_eq_ok run
  have created := Copy.createFolders_becomes sound creating
  rw [history, reported, skipped_foldl, failed_foldl]
  refine ⟨rfl, rfl, ?_, ?_⟩
  · intro visit member descriptor loads refused
    have named := (visits_placed (created.sound sound) found visit member).1
    obtain ⟨skips, unconverted⟩ := refused_skips_iff destination
      (descriptor?_isFolder named loads) loads refused
    refine ⟨skips, ?_⟩
    have failing := converter.failure?_eq_none destination visit
    rw [unconverted, skips] at failing
    rw [Option.isSome_iff_ne_none, ne_eq, failing]
    simp
  · simp only [Batch.hasFailures, failed_foldl, List.nil_append, Bool.not_eq_false',
      List.isEmpty_iff, List.filterMap_eq_nil_iff, Option.map_eq_none_iff, failure?_eq_none]

/-- The visit of the second of the two recipes that ask for the same folder. -/
def oldVisit (overwrite : Bool) : Visit :=
  ⟨⟨"recipes/old"⟩, (releasing overwrite).leaves ⟨"out"⟩ newVisit⟩

def oldRecipe : Descriptor :=
  ⟨"old", "old", "shared", ⟨8, 0, 0, .final, 0⟩, some ⟨8, 0⟩, [], none, []⟩

theorem sharedFolder_visits (overwrite : Bool) :
    (releasing overwrite).history ⟨"recipes"⟩ ⟨"out"⟩ sharedFolder =
      [newVisit, oldVisit overwrite] := by
  have found := sharedFolder_found
  unfold newVisit at found
  rw [history, found]
  rfl

theorem refused_recipes_skipped_sharedFolder :
    ∃ batch after, ((releasing true).convertAll ⟨"recipes"⟩ ⟨"out"⟩).run sharedFolder = .ok batch after ∧
      batch.skipped = ["old"] ∧ batch.hasFailures = false := by
  obtain ⟨converted, -, batch, after, run, old, -⟩ := sharedFolder_converted true
  have reports := refused_recipes_skipped sharedFolder_sound run
  rw [sharedFolder_visits] at reports
  obtain ⟨skipped, -, -, failures⟩ := reports
  refine ⟨batch, after, run, old, failures.mpr ?_⟩
  -- The first recipe was converted, so the one that was skipped is the other.
  have new : (releasing true).skips ⟨"out"⟩ newVisit = false := by
    rw [skips, value?, (conversion?_eq_some.mp converted).1]
    rfl
  have second : (releasing true).skips ⟨"out"⟩ (oldVisit true) = true := by
    by_contra unskipped
    rw [old, List.filter_cons_of_neg (by simp [new]), List.filter_cons_of_neg unskipped] at skipped
    cases skipped
  simp [converted, second]

theorem refused_recipes_skipped_fails :
    ¬ ∀ (converter : Converter) (source destination : Path) (session after : Session) (batch : Batch),
      session.disk.Sound →
      (converter.convertAll source destination).run session = .ok batch after →
      ∀ visit ∈ converter.history source destination session, ∀ descriptor,
        converter.descriptor? visit = some descriptor → converter.mode.accepts descriptor = false →
        visit.folder.name ∈ batch.skipped := by
  intro skipped
  obtain ⟨-, -, batch, after, run, nothing, -⟩ := sharedFolder_converted false
  have loads : (releasing false).descriptor? (oldVisit false) = some oldRecipe := by decide +kernel
  have listed := skipped _ _ _ _ _ _ sharedFolder_sound run (oldVisit false)
    (by rw [sharedFolder_visits]; simp) oldRecipe loads (by decide +kernel)
  rw [nothing] at listed
  cases listed

end Converter

end Cookbook
