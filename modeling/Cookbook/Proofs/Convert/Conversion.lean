import Cookbook.Proofs.Convert.Clearing
import Cookbook.Proofs.Recipe.Load

/-!
Conversions taken apart into their phases, and what one of a recipe that does not support the release
does to the disk.
-/

namespace Cookbook

open Action

namespace Converter

variable {converter : Converter} {source destination : Path} {session after : Session}
  {conversion : Conversion}

theorem convert_eq_ok (run : (converter.convert source destination).run session = .ok conversion after) :
    ∃ loaded cleared,
      (Descriptor.load source converter.context).run session = .ok conversion.descriptor loaded ∧
      conversion.destination =
        destination.joinName (converter.mode.destinationName conversion.descriptor) ∧
      (converter.clearDestination conversion.destination).run loaded = .ok () cleared ∧
      match conversion.outcome with
      | .nonCompliant => converter.mode.accepts conversion.descriptor = false ∧ cleared = after
      | .converted =>
          converter.mode.accepts conversion.descriptor = true ∧ ∃ plan copied,
            converter.mode.plan conversion.descriptor converter.context = .ok plan ∧
            (Copy.recipe plan source conversion.destination).run cleared = .ok () copied ∧
            if converter.withWrapper && !converter.mode.isSource then
              (converter.addWrapper conversion.destination plan).run copied = .ok () after
            else copied = after := by
  unfold convert at run
  obtain ⟨between, isFolder, run⟩ := throwUnless_eq_ok.mp run
  obtain ⟨-, rfl⟩ := isFolder_eq_ok.mp isFolder
  rw [bind_eq_ok] at run
  obtain ⟨descriptor, loaded, load, run⟩ := run
  rw [bind_eq_ok] at run
  obtain ⟨⟨⟩, cleared, clearing, run⟩ := run
  refine ⟨loaded, cleared, ?_⟩
  cases accepted : converter.mode.accepts descriptor with
  | false =>
      simp only [accepted, Bool.not_false, if_true] at run
      obtain ⟨rfl, rfl⟩ := pure_eq_ok.mp run
      exact ⟨load, rfl, clearing, accepted, rfl⟩
  | true =>
      simp only [accepted, Bool.not_true, Bool.false_eq_true, if_false, bind_eq_ok] at run
      obtain ⟨plan, between, planning, ⟨⟩, copied, copying, run⟩ := run
      obtain ⟨planned, rfl⟩ := ofExcept_eq_ok.mp planning
      split at run
      · next wrapped =>
          rw [bind_eq_ok] at run
          obtain ⟨_, wrappedAfter, wrapping, run⟩ := run
          obtain ⟨rfl, rfl⟩ := pure_eq_ok.mp run
          refine ⟨load, rfl, clearing, accepted, plan, copied, planned, copying, ?_⟩
          rwa [if_pos wrapped]
      · next unwrapped =>
          obtain ⟨rfl, rfl⟩ := pure_eq_ok.mp run
          refine ⟨load, rfl, clearing, accepted, plan, copied, planned, copying, ?_⟩
          rw [if_neg unwrapped]

/-- A conversion that finds the release unsupported leaves the disk as it was exactly if it may not
overwrite or the folder it would have written shows nothing. -/
theorem nonCompliant_sameDisk_iff
    (run : (converter.convert source destination).run session = .ok conversion after)
    (refused : conversion.outcome = .nonCompliant) :
    after.disk = session.disk ↔
      (converter.overwrite = true → ∀ tree, session.disk.list conversion.destination = .ok tree →
        ∀ entry ∈ tree.entries, isHidden entry.1 = true) := by
  obtain ⟨loaded, cleared, load, -, clearing, outcome⟩ := convert_eq_ok run
  simp only [refused] at outcome
  obtain ⟨-, rfl⟩ := outcome
  -- Clearing comes before the check, so that it is all that can have changed the disk.
  have sameDisk : loaded.disk = session.disk := (Descriptor.load_sameDisk _ _).ok load
  rw [← sameDisk]
  obtain ⟨rfl, nothing⟩ | ⟨overwrite, clear⟩ := clearDestination_eq_ok clearing
  · simp only [true_iff]
    intro _ tree list
    simp [nothing tree list]
  · simp [overwrite, clearFolder_same_iff clear]

/-- A recipe for releases up to line 8.2, next to what an earlier conversion of it left. -/
def convertedBefore : Session where
  disk := {
    root := .folder "recipe"
      (.file "recipe_metadata.toml"
        ⟨"[agpVersion]\nmin = \"8.1.0\"\nmax = \"8.2\"\n".toUTF8, false⟩ .empty)
      (.folder "out" (.folder "recipe" (.file "settings.gradle" ⟨.empty, false⟩ .empty) .empty) .empty)
    here := [] }

def overwriting : Converter where
  mode := .release (.localOnly ⟨9, 0, 0, .final, 0⟩ "" "")
  context := ⟨{}, .empty⟩
  overwrite := true

def refusal : Conversion where
  descriptor := ⟨"recipe", "recipe", "recipe", ⟨8, 1, 0, .final, 0⟩, some ⟨8, 2⟩, [], none, []⟩
  destination := ⟨"out/recipe"⟩
  outcome := .nonCompliant

theorem refusal_given :
    (overwriting.convert ⟨"recipe"⟩ ⟨"out"⟩).value? convertedBefore = some refusal := by
  decide +kernel

theorem nonCompliant_sameDisk_convertedBefore :
    ∃ conversion after,
      (overwriting.convert ⟨"recipe"⟩ ⟨"out"⟩).run convertedBefore = .ok conversion after ∧
      conversion.outcome = .nonCompliant ∧ after.disk ≠ convertedBefore.disk := by
  have run := run_eq_ok refusal_given
  refine ⟨_, _, run, rfl, ?_⟩
  rw [ne_eq, nonCompliant_sameDisk_iff run rfl]
  intro onlyHidden
  have shown : (convertedBefore.disk.list refusal.destination).toOption =
      some (.file "settings.gradle" ⟨.empty, false⟩ .empty) := by decide +kernel
  cases listed : convertedBefore.disk.list refusal.destination with
  | error fault =>
      rw [listed] at shown
      cases shown
  | ok tree =>
      rw [listed] at shown
      cases shown
      have hidden := onlyHidden rfl _ listed _ List.mem_cons_self
      revert hidden
      decide +kernel

theorem nonCompliant_sameDisk_fails :
    ¬ ∀ (converter : Converter) (source destination : Path) (session after : Session)
      (conversion : Conversion),
      (converter.convert source destination).run session = .ok conversion after →
      conversion.outcome = .nonCompliant → after.disk = session.disk := by
  intro same
  have run := run_eq_ok refusal_given
  have kept := same _ _ _ _ _ _ run rfl
  revert kept
  decide +kernel

theorem nonCompliant_files (sound : session.disk.Sound)
    (run : (converter.convert source destination).run session = .ok conversion after)
    (refused : conversion.outcome = .nonCompliant) (place : Location) :
    after.disk.files place = session.disk.files place ∨
      converter.overwrite = true ∧ after.disk.files place = none ∧ ∃ name, isHidden name = false ∧
        session.disk.place conversion.destination ++ [name] <+: place := by
  obtain ⟨loaded, cleared, load, -, clearing, outcome⟩ := convert_eq_ok run
  simp only [refused] at outcome
  obtain ⟨-, rfl⟩ := outcome
  have sameDisk : loaded.disk = session.disk := (Descriptor.load_sameDisk _ _).ok load
  rw [← sameDisk] at sound ⊢
  obtain ⟨rfl, -⟩ | ⟨overwrite, clear⟩ := clearDestination_eq_ok clearing
  · exact .inl rfl
  · obtain ⟨tree, -, becomes⟩ := clearFolder_becomes sound clear
    rw [becomes.files]
    dsimp only
    split
    · next clears =>
        obtain ⟨entry, -, visible, below⟩ := clears
        exact .inr ⟨overwrite, rfl, entry.1, visible, below⟩
    · exact .inl rfl

end Converter
end Cookbook
