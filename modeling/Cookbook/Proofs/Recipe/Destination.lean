import Cookbook.Convert.Mode
import Cookbook.Proofs.Disk.Place
import Cookbook.Proofs.Recipe.Load

/-!
Where recipes are written. The name of a recipe's folder in the destination is a single piece of a path,
and the folder is directly in the destination unless a release is written to `.` or `..`.
-/

namespace Cookbook

open Action

variable {content folderName : String} {path : Path} {lookup : ReleaseLine → Except Failure Release}
  {descriptor : Descriptor}

theorem Text.nonBlank?_ne_empty {text value : String} (found : nonBlank? text = some value) :
    value ≠ "" := by
  unfold nonBlank? at found
  split at found
  · cases found
  · next nonempty =>
      cases found
      simpa [trim] using nonempty

namespace Descriptor

theorem readDestination_eq_ok {metadata : Metadata} {name : String}
    (read : readDestination folderName path metadata = .ok name) :
    name = folderName ∨ name ≠ "" ∧ '/' ∉ name.toList := by
  unfold readDestination at read
  split at read
  · cases read
    exact .inl rfl
  · next value given =>
      split at read
      · cases read
      · next plain =>
          cases read
          obtain ⟨text, -, nonBlank⟩ := Option.bind_eq_some_iff.mp given
          refine .inr ⟨Text.nonBlank?_ne_empty nonBlank, ?_⟩
          intro slash
          apply plain
          exact List.any_eq_true.mpr ⟨'/', slash, by decide⟩

theorem parse_destination (parsed : parse content folderName path lookup = .ok descriptor) :
    descriptor.destination = folderName ∨
      descriptor.destination ≠ "" ∧ '/' ∉ descriptor.destination.toList := by
  obtain ⟨_, _, -, -, -, -, read, -⟩ := parse_eq_ok parsed
  exact readDestination_eq_ok read

end Descriptor

namespace Mode

theorem destinationName_of_parse
    (parsed : Descriptor.parse content folderName path lookup = .ok descriptor) (mode : Mode) :
    mode.destinationName descriptor = folderName ∨
      mode.destinationName descriptor ≠ "" ∧ '/' ∉ (mode.destinationName descriptor).toList := by
  cases mode with
  | source | workingCopy => exact .inl (Descriptor.parse_folderName parsed)
  | release target => exact Descriptor.parse_destination parsed

theorem destinationName_of_load {folder : Path} {context : Context} {session after : Session}
    (run : (Descriptor.load folder context).run session = .ok descriptor after) (mode : Mode) :
    '/' ∉ (mode.destinationName descriptor).toList ∧
      (folder.name ≠ "" → mode.destinationName descriptor ≠ "") := by
  obtain ⟨content, lookup, -, -, parsed⟩ := Descriptor.load_eq_ok run
  obtain own | ⟨nonempty, single⟩ := destinationName_of_parse parsed mode
  · rw [own]
    refine ⟨?_, id⟩
    by_cases named : folder.name = ""
    · simp [named]
    · exact (Path.proper_name named).single
  · exact ⟨single, fun _ => nonempty⟩

theorem destinationName_proper {folder : Path} {d : Disk}
    (named : folder.name ≠ "") (describes : d.Describes folder descriptor)
    (proper : ProperName descriptor.destination) (mode : Mode) :
    ProperName (mode.destinationName descriptor) := by
  obtain ⟨data, content, lookup, -, -, parsed⟩ := describes
  cases mode with
  | source | workingCopy =>
      rw [Mode.destinationName, Descriptor.parse_folderName parsed]
      exact Path.proper_name named
  | release target => exact proper

theorem destinationName_ne {first second : Path} {d : Disk} {other : Descriptor}
    (describes : d.Describes first descriptor) (describesOther : d.Describes second other)
    (folders : first.name ≠ second.name) (destinations : descriptor.destination ≠ other.destination)
    (mode : Mode) : mode.destinationName descriptor ≠ mode.destinationName other := by
  obtain ⟨_, _, _, -, -, parsed⟩ := describes
  obtain ⟨_, _, _, -, -, parsedOther⟩ := describesOther
  cases mode with
  | source | workingCopy =>
      rw [Mode.destinationName, Mode.destinationName, Descriptor.parse_folderName parsed,
        Descriptor.parse_folderName parsedOther]
      exact folders
  | release target => exact destinations

/-- A recipe's folder is directly in the destination, under the name that the mode gives it, unless a
release is to be written to a step of its own. -/
theorem place_destinationName_iff
    (parsed : Descriptor.parse content folderName path lookup = .ok descriptor)
    (proper : ProperName folderName) (mode : Mode) (d : Disk) (destination : Path) :
    d.place (destination.joinName (mode.destinationName descriptor)) =
        d.place destination ++ [mode.destinationName descriptor] ↔
      mode.target? = none ∨ descriptor.destination ≠ "." ∧ descriptor.destination ≠ ".." := by
  have own := Descriptor.parse_folderName parsed
  cases mode with
  | source | workingCopy =>
      simp only [destinationName, target?, true_or, iff_true, own]
      exact Disk.place_joinName d destination proper
  | release target =>
      have name := Descriptor.parse_destination parsed
      simp only [destinationName, target?, reduceCtorEq, false_or]
      constructor
      · intro child
        constructor
        · intro here
          rw [here, Disk.place_here] at child
          simp at child
        · intro up
          rw [up, Disk.place_up] at child
          have longer := congrArg List.length child
          rw [List.length_dropLast, List.length_append, List.length_singleton] at longer
          omega
      · intro ⟨notHere, notUp⟩
        refine Disk.place_joinName d destination ?_
        obtain same | ⟨nonempty, single⟩ := name
        · exact same ▸ proper
        · exact ⟨nonempty, notHere, notUp, single⟩

/-- A descriptor that asks for the folder above the destination. -/
def stepsUp : String := "destinationFolder = \"..\"\n[agpVersion]\nmin = \"8.1.0\"\n"

def anyRelease : Mode := .release (.localOnly ⟨8, 1, 0, .final, 0⟩ "" "")

def steppingUp : Descriptor := ⟨"recipe", "recipe", "..", ⟨8, 1, 0, .final, 0⟩, none, [], none, []⟩

theorem stepsUp_parsed :
    Descriptor.parse stepsUp "recipe" ⟨""⟩ (fun line => .error (.missingPublishedRelease line)) =
      .ok steppingUp := by
  rfl

theorem place_destinationName_stepsUp :
    ∃ descriptor,
      Descriptor.parse stepsUp "recipe" ⟨""⟩ (fun line => .error (.missingPublishedRelease line)) =
        .ok descriptor ∧
      ProperName "recipe" ∧
      ∀ (d : Disk) (destination : Path),
        d.place (destination.joinName (anyRelease.destinationName descriptor)) ≠
          d.place destination ++ [anyRelease.destinationName descriptor] := by
  refine ⟨steppingUp, stepsUp_parsed, by decide +kernel, ?_⟩
  intro d destination
  rw [ne_eq, place_destinationName_iff stepsUp_parsed (by decide +kernel) anyRelease d destination]
  decide +kernel

theorem place_destinationName_fails :
    ¬ ∀ (content folderName : String) (path : Path) (lookup : ReleaseLine → Except Failure Release)
      (descriptor : Descriptor) (mode : Mode) (d : Disk) (destination : Path),
      Descriptor.parse content folderName path lookup = .ok descriptor → ProperName folderName →
      d.place (destination.joinName (mode.destinationName descriptor)) =
        d.place destination ++ [mode.destinationName descriptor] := by
  intro child
  have above := child _ _ _ _ _ anyRelease ⟨.empty, [], ⟨"/tmp"⟩, 0, 4096⟩ ⟨"out/new"⟩ stepsUp_parsed
    (by decide +kernel)
  revert above
  decide +kernel

end Mode

end Cookbook
