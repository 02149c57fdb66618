import Cookbook.Proofs.Convert.Clearing
import Cookbook.Proofs.Convert.Copying

/-!
Adding the Gradle wrapper to a converted recipe. It touches only files that are skipped when a recipe
is copied, so that what was copied stays, and a further conversion drops what was added.
-/

namespace Cookbook

open Action

/-- That the files at and below a place are those of a Gradle wrapper. -/
def HoldsWrapper (files : Location → Option FileData) (place : Location) : Prop :=
  ∀ rest data, files (place ++ rest) = some data →
    rest = ["gradlew"] ∨ rest = ["gradlew.bat"] ∨
      ∃ name below, rest = "gradle" :: "wrapper" :: name :: below

theorem HoldsWrapper.skip {files : Location → Option FileData} {place rest : Location}
    {data : FileData} (holds : HoldsWrapper files place) (found : files (place ++ rest) = some data) :
    Route.ofPlace rest = .skip := by
  obtain rfl | rfl | ⟨name, below, rfl⟩ := holds rest data found
  · rfl
  · rfl
  · have plain : Route.skippedFolders.contains "gradle" = false := rfl
    have skipped : Route.skippedFolders.contains "wrapper" = true := rfl
    rw [Route.ofPlace_cons, Route.ofPlace_cons, plain, skipped]
    rfl

/-- That files are others only where a recipe below a place is skipped. -/
def SameRouted (folder : Location) (files files' : Location → Option FileData) : Prop :=
  ∀ place, files' place = files place ∨ ∃ rest, place = folder ++ rest ∧ Route.ofPlace rest = .skip

section SameRouted

variable {folder source : Location} {files files' files'' : Location → Option FileData}

theorem SameRouted.trans (first : SameRouted folder files files')
    (second : SameRouted folder files' files'') : SameRouted folder files files'' := by
  intro place
  cases second place with
  | inr skipped => exact .inr skipped
  | inl same =>
      rw [same]
      exact first place

theorem SameRouted.update {rest : Location} (skip : Route.ofPlace rest = .skip)
    (data : Option FileData) :
    SameRouted folder files (Function.update files (folder ++ rest) data) := by
  intro place
  by_cases same : place = folder ++ rest
  · exact .inr ⟨rest, same, skip⟩
  · exact .inl (Function.update_of_ne same data files)

theorem SameRouted.transfer (holds : HoldsWrapper files source) :
    SameRouted folder files (transfer Fate.copied source folder files) := by
  intro place
  by_cases inside : folder <+: place
  · obtain ⟨rest, rfl⟩ := inside
    rw [transfer_below]
    cases found : files (source ++ rest) with
    | none => exact .inl rfl
    | some data => exact .inr ⟨rest, rfl, holds.skip found⟩
  · exact .inl (transfer_outside inside)

theorem SameRouted.outside (same : SameRouted folder files files') {place : Location}
    (outside : ¬ folder <+: place) : files' place = files place := by
  obtain same | ⟨rest, rfl, -⟩ := same place
  · exact same
  · exact absurd (List.prefix_append folder rest) outside

theorem SameRouted.routed (same : SameRouted folder files files') {rest : Location}
    (routed : Route.ofPlace rest ≠ .skip) : files' (folder ++ rest) = files (folder ++ rest) := by
  obtain same | ⟨other, equal, skip⟩ := same (folder ++ rest)
  · exact same
  · rw [List.append_cancel_left equal] at routed
    exact absurd skip routed

end SameRouted

namespace Converter

variable {converter : Converter} {session after : Session} {destination : Path} {plan : Plan}

theorem isAbsolute_wrapperProperties : wrapperProperties.isAbsolute = false := rfl

theorem isAbsolute_wrapperScript : wrapperScript.isAbsolute = false := rfl

theorem parts_wrapperProperties :
    wrapperProperties.parts = ["gradle", "wrapper", "gradle-wrapper.properties"] := rfl

theorem parts_wrapperScript : wrapperScript.parts = ["gradlew"] := rfl

theorem proper_wrapperProperties :
    ∀ name ∈ ["gradle", "wrapper", "gradle-wrapper.properties"], ProperName name := by
  decide

theorem proper_wrapperScript : ProperName "gradlew" := by decide

theorem place_wrapperProperties (d : Disk) (destination : Path) :
    d.place (destination.join wrapperProperties) =
      d.place destination ++ ["gradle", "wrapper", "gradle-wrapper.properties"] := by
  rw [Disk.place_join _ isAbsolute_wrapperProperties, parts_wrapperProperties]
  simp [follow]

theorem place_wrapperScript (d : Disk) (destination : Path) :
    d.place (destination.join wrapperScript) = d.place destination ++ ["gradlew"] := by
  rw [Disk.place_join _ isAbsolute_wrapperScript, parts_wrapperScript]
  simp [follow]

theorem addWrapper_eq_ok (run : (converter.addWrapper destination plan).run session = .ok () after) :
    ∃ copied filled,
      (Copy.whole converter.context.config.gradleResourcesPath destination).run session =
        .ok () copied ∧
      (Copy.fillFile plan .wrapper (destination.join wrapperProperties)
        (destination.join wrapperProperties)).run copied = .ok () filled ∧
      if filled.disk.isFile (destination.join wrapperScript) then
        ∃ disk, filled.disk.setExecutable (destination.join wrapperScript) true = .ok disk ∧
          { filled with disk } = after
      else filled = after := by
  unfold addWrapper at run
  obtain ⟨between, isFolder, run⟩ := throwUnless_eq_ok.mp run
  obtain ⟨-, rfl⟩ := isFolder_eq_ok.mp isFolder
  rw [bind_eq_ok] at run
  obtain ⟨⟨⟩, copied, copying, run⟩ := run
  obtain ⟨between, isFile, run⟩ := throwUnless_eq_ok.mp run
  obtain ⟨-, rfl⟩ := isFile_eq_ok.mp isFile
  rw [bind_eq_ok] at run
  obtain ⟨⟨⟩, filled, filling, run⟩ := run
  rw [bind_eq_ok] at run
  obtain ⟨script, between, isScript, run⟩ := run
  obtain ⟨rfl, rfl⟩ := isFile_eq_ok.mp isScript
  refine ⟨copied, filled, copying, filling, ?_⟩
  split at run
  · next present =>
      rw [if_pos present]
      exact change_eq_ok.mp run
  · next absent =>
      rw [if_neg absent]
      exact (pure_eq_ok.mp run).2

theorem addWrapper_becomes (sound : session.disk.Sound)
    (apart : Apart (session.disk.place converter.context.config.gradleResourcesPath)
      (session.disk.place destination))
    (holds : HoldsWrapper session.disk.files
      (session.disk.place converter.context.config.gradleResourcesPath))
    (run : (converter.addWrapper destination plan).run session = .ok () after) :
    ∃ files, session.disk.Becomes after.disk files ∧
      SameRouted (session.disk.place destination) session.disk.files files := by
  obtain ⟨copied, filled, copying, filling, rest⟩ := addWrapper_eq_ok run
  have copiedBecomes := Copy.whole_becomes sound apart copying
  have copiedSound := copiedBecomes.sound sound
  obtain ⟨data, -, filledBecomes⟩ := Copy.fillFile_becomes copiedSound filling
  have filledSound := filledBecomes.sound copiedSound
  have filledSame : SameRouted (session.disk.place destination) session.disk.files
      filled.disk.files := by
    rw [filledBecomes.files, place_wrapperProperties, copiedBecomes.place]
    refine .trans ?_ (.update rfl _)
    rw [copiedBecomes.files]
    exact .transfer holds
  have becomes := copiedBecomes.trans filledBecomes
  rw [← filledBecomes.files] at becomes
  split at rest
  · obtain ⟨disk, changed, rfl⟩ := rest
    obtain ⟨scriptData, -, scriptBecomes⟩ := Disk.setExecutable_becomes filledSound changed
    refine ⟨_, becomes.trans scriptBecomes, filledSame.trans ?_⟩
    rw [place_wrapperScript, becomes.place]
    exact .update rfl _
  · exact ⟨_, rest ▸ becomes, filledSame⟩

end Converter

end Cookbook
