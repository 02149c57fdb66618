import Cookbook.Proofs.Convert.Conversion
import Cookbook.Proofs.Convert.Wrapper
import Cookbook.Proofs.Placeholder.Restoring
import Cookbook.Proofs.Placeholder.Stripping

/-!
Working copies on disk. A recipe that is converted to a working copy, and back to source from there, has
the files it had but for those that conversions skip, and the lines of its templates.
-/

namespace Cookbook

open Action

/-! ## Contents -/

/-- A file with every line of its text followed by one line feed. -/
def FileData.relined (data : FileData) : FileData where
  bytes := match String.fromUTF8? data.bytes with
    | some text => (Text.unlines (Text.lines text)).toUTF8
    | none => data.bytes
  executable := false

theorem Plan.unwrap_wrap_file (template : Template) {values : Values} {data : FileData}
    (plain : ∀ value ∈ values.all, '<' ∉ value.toList)
    (restorable : ∀ text, String.fromUTF8? data.bytes = some text →
      ∀ line ∈ Text.lines text, Restorable line) :
    FileData.rewritten none
        (Plan.unwrap.rewrite template ((Plan.wrap values).rewrite template data.bytes)) =
      data.relined := by
  cases decoded : String.fromUTF8? data.bytes with
  | none => simp [FileData.rewritten, FileData.relined, rewrite, decoded]
  | some text =>
      simp only [FileData.rewritten, FileData.relined, rewrite, decoded, Option.any_none]
      rw [fromUTF8?_written]
      simp only [unwrap_wrap_text template plain (restorable text decoded)]

/-! ## Conversions that are not refused -/

namespace Converter

variable {converter : Converter} {source destination : Path} {session after : Session}
  {conversion : Conversion}

theorem convert_destination
    (ownName : converter.mode.destinationName conversion.descriptor = conversion.descriptor.folderName)
    (run : (converter.convert source destination).run session = .ok conversion after) :
    conversion.destination = destination.joinName source.name := by
  obtain ⟨loaded, cleared, load, named, -⟩ := convert_eq_ok run
  rw [named, ownName, Descriptor.load_folderName load]

theorem convert_becomes (accepts : converter.mode.accepts conversion.descriptor = true)
    (sound : session.disk.Sound)
    (new : ∀ rest, session.disk.files (session.disk.place conversion.destination ++ rest) = none)
    (apart : Apart (session.disk.place source) (session.disk.place conversion.destination))
    (run : (converter.convert source destination).run session = .ok conversion after) :
    ∃ plan copied, converter.mode.plan conversion.descriptor converter.context = .ok plan ∧
      session.disk.Becomes copied.disk
        (transfer plan.fate (session.disk.place source) (session.disk.place conversion.destination)
          session.disk.files) ∧
      if converter.withWrapper && !converter.mode.isSource then
        (converter.addWrapper conversion.destination plan).run copied = .ok () after
      else copied = after := by
  obtain ⟨loaded, cleared, load, -, clearing, outcome⟩ := convert_eq_ok run
  have sameDisk : loaded.disk = session.disk := (Descriptor.load_sameDisk _ _).ok load
  rw [← sameDisk] at sound new apart ⊢
  have clearedBecomes := clearDestination_becomes sound new clearing
  cases result : conversion.outcome with
  | nonCompliant =>
      simp only [result, accepts] at outcome
      exact absurd outcome.1 (by decide)
  | converted =>
      simp only [result] at outcome
      obtain ⟨-, plan, copied, planned, copying, rest⟩ := outcome
      rw [← clearedBecomes.place, ← clearedBecomes.place] at apart
      have copiedBecomes := Copy.recipe_becomes (clearedBecomes.sound sound) apart copying
      rw [clearedBecomes.place, clearedBecomes.place, clearedBecomes.files] at copiedBecomes
      exact ⟨plan, copied, planned, clearedBecomes.trans copiedBecomes, rest⟩

end Converter

/-! ## There and back -/

theorem Mode.workingCopy_wraps {descriptor : Descriptor} {context : Context} {plan : Plan}
    (planned : workingCopy.plan descriptor context = .ok plan) : ∃ values, plan = .wrap values := by
  rw [Mode.plan, except_bind_eq_ok] at planned
  obtain ⟨companions, -, made⟩ := planned
  cases made
  exact ⟨_, rfl⟩

/-- What a disk has to be like for the recipe in a folder to be converted to a working copy in one
folder and from there back to source in another. -/
structure RoundTrip (disk : Disk) (resources source copies results : Path) : Prop where
  sound : disk.Sound
  named : source.name ≠ ""
  newCopy : ∀ rest, disk.files (disk.place (copies.joinName source.name) ++ rest) = none
  newResult : ∀ rest, disk.files (disk.place (results.joinName source.name) ++ rest) = none
  sourceApart : Apart (disk.place source) (disk.place (copies.joinName source.name))
  resourcesApart : Apart (disk.place resources) (disk.place (copies.joinName source.name))
  resultApart : Apart (disk.place (copies.joinName source.name))
    (disk.place (results.joinName source.name))
  wrapper : HoldsWrapper disk.files (disk.place resources)
  lines : ∀ rest template data text, Route.ofPlace rest = .fill template →
    disk.files (disk.place source ++ rest) = some data →
    String.fromUTF8? data.bytes = some text → ∀ line ∈ Text.lines text, Restorable line

namespace Converter

variable {first second : Converter} {source copies results : Path} {session between after : Session}
  {copied restored : Conversion}

theorem workingCopy_files (isCopy : first.mode = .workingCopy)
    (ready : RoundTrip session.disk first.context.config.gradleResourcesPath source copies results)
    (copying : (first.convert source copies).run session = .ok copied between) :
    ∃ values, first.mode.plan copied.descriptor first.context = .ok (.wrap values) ∧
      ∃ files, session.disk.Becomes between.disk files ∧
        SameRouted (session.disk.place copied.destination)
          (transfer (Plan.wrap values).fate (session.disk.place source)
            (session.disk.place copied.destination) session.disk.files) files := by
  have place := convert_destination (by rw [isCopy]; rfl) copying
  obtain ⟨plan, written, planned, becomes, rest⟩ := convert_becomes (by rw [isCopy]; rfl) ready.sound
    (by rw [place]; exact ready.newCopy) (by rw [place]; exact ready.sourceApart) copying
  obtain ⟨values, rfl⟩ := Mode.workingCopy_wraps (isCopy ▸ planned)
  refine ⟨values, planned, ?_⟩
  split at rest
  · have apart := ready.resourcesApart
    rw [← place] at apart
    have holds : HoldsWrapper written.disk.files
        (written.disk.place first.context.config.gradleResourcesPath) := by
      intro below data found
      rw [becomes.files, becomes.place, transfer_outside (apart.notBelow below)] at found
      exact ready.wrapper below data found
    rw [← becomes.place, ← becomes.place] at apart
    obtain ⟨files, wrapped, same⟩ :=
      addWrapper_becomes (becomes.sound ready.sound) apart holds rest
    rw [becomes.files, becomes.place] at same
    exact ⟨files, becomes.trans wrapped, same⟩
  · subst rest
    exact ⟨_, becomes, fun _ => .inl rfl⟩

/-- What a working copy holds of a recipe's files, told by what is restored of them. -/
theorem workingCopy_fate (isCopy : first.mode = .workingCopy)
    (ready : RoundTrip session.disk first.context.config.gradleResourcesPath source copies results)
    (copying : (first.convert source copies).run session = .ok copied between)
    (plain : ∀ values, first.mode.plan copied.descriptor first.context = .ok (.wrap values) →
      ∀ value ∈ values.all, '<' ∉ value.toList)
    (rest : Location) :
    Plan.unwrap.fate rest (between.disk.files (between.disk.place copied.destination ++ rest)) none =
      match Route.ofPlace rest with
      | .skip => none
      | .fill _ => (session.disk.files (session.disk.place source ++ rest)).map (·.relined)
      | .copy => session.disk.files (session.disk.place source ++ rest) := by
  obtain ⟨values, planned, files, becomes, same⟩ := workingCopy_files isCopy ready copying
  have destination := convert_destination (by rw [isCopy]; rfl) copying
  rw [becomes.place, becomes.files]
  cases route : Route.ofPlace rest with
  | skip => exact Plan.fate_skip route _ _
  | copy =>
      rw [same.routed (by simp [route]), transfer_below, destination, ready.newCopy]
      cases session.disk.files (session.disk.place source ++ rest) with
      | none => rfl
      | some data => simp [Plan.fate, route]
  | fill template =>
      rw [same.routed (by simp [route]), transfer_below, destination, ready.newCopy]
      cases found : session.disk.files (session.disk.place source ++ rest) with
      | none => rfl
      | some data =>
          have restored := Plan.unwrap_wrap_file template (plain values planned)
            fun text => ready.lines rest template data text route found
          simp only [Plan.fate, route, Option.map_some]
          exact congrArg some restored

/-- Converting a recipe to a working copy and that to source restores the recipe. -/
theorem workingCopy_source_files (isCopy : first.mode = .workingCopy) (isSource : second.mode = .source)
    (ready : RoundTrip session.disk first.context.config.gradleResourcesPath source copies results)
    (copying : (first.convert source copies).run session = .ok copied between)
    (plain : ∀ values, first.mode.plan copied.descriptor first.context = .ok (.wrap values) →
      ∀ value ∈ values.all, '<' ∉ value.toList)
    (restoring : (second.convert copied.destination results).run between = .ok restored after)
    (rest : Location) :
    after.disk.files (after.disk.place restored.destination ++ rest) =
      match Route.ofPlace rest with
      | .skip => none
      | .fill _ => (session.disk.files (session.disk.place source ++ rest)).map (·.relined)
      | .copy => session.disk.files (session.disk.place source ++ rest) := by
  obtain ⟨values, planned, files, becomes, same⟩ := workingCopy_files isCopy ready copying
  have copyPlace := convert_destination (by rw [isCopy]; rfl) copying
  have resultPlace := convert_destination (by rw [isSource]; rfl) restoring
  have name : copied.destination.name = source.name := by
    rw [copyPlace, Path.name_joinName _ (Path.proper_name ready.named)]
  rw [name] at resultPlace
  have apart := ready.resultApart
  have new := ready.newResult
  rw [← copyPlace, ← resultPlace] at apart
  rw [← resultPlace] at new
  -- The first conversion writes nothing where the second one will.
  have stillNew (rest : Location) : files (session.disk.place restored.destination ++ rest) = none := by
    have outside := apart.symm.notBelow rest
    rw [same.outside outside, transfer_outside outside, new]
  obtain ⟨plan, written, planned', becomes', rest'⟩ := convert_becomes (by rw [isSource]; rfl)
    (becomes.sound ready.sound) (by rw [becomes.files, becomes.place]; exact stillNew)
    (by rw [becomes.place, becomes.place]; exact apart) restoring
  rw [isSource] at planned' rest'
  cases planned'
  have unwrapped : written = after := by simpa [Mode.isSource] using rest'
  subst unwrapped
  rw [becomes'.place, becomes'.files, transfer_below, becomes.place, becomes.place, becomes.files,
    stillNew]
  have fate := workingCopy_fate isCopy ready copying plain rest
  rwa [becomes.place, becomes.files] at fate

/-! ## A recipe there and back -/

/-- A recipe with a template, a build folder and a script of its own, next to a Gradle wrapper. -/
def wrappedRecipe : Session where
  disk := {
    root := .folder "recipe"
      (.file "recipe_metadata.toml" ⟨"[agpVersion]\nmin = \"8.1.0\"\n".toUTF8, false⟩
        (.file "build.gradle" ⟨"agp $AGP_VERSION, kotlin $KOTLIN_VERSION\r\nend".toUTF8, false⟩
          (.folder "build" (.file "app.jar" ⟨.empty, false⟩ .empty)
            (.file "gradlew" ⟨.empty, true⟩ .empty))))
      (.folder "kit"
        (.folder "gradle"
          (.folder "wrapper"
            (.file "gradle-wrapper.properties" ⟨"url=$GRADLE_LOCATION\n".toUTF8, false⟩ .empty) .empty)
          .empty)
        .empty)
    here := [] }

def wrappingContext : Context := { singleLineContext with config.gradleResources := some ⟨"kit"⟩ }

def toWorkingCopy : Converter where
  mode := .workingCopy
  context := wrappingContext

def toSource : Converter where
  mode := .source
  context := wrappingContext

theorem wrappedRecipe_ready : RoundTrip wrappedRecipe.disk
    toWorkingCopy.context.config.gradleResourcesPath ⟨"recipe"⟩ ⟨"copy"⟩ ⟨"back"⟩ where
  sound := ⟨by decide +kernel, by simp [wrappedRecipe]⟩
  named := by decide +kernel
  newCopy := Tree.fileAt?_absent (by decide +kernel)
  newResult := Tree.fileAt?_absent (by decide +kernel)
  sourceApart := by decide +kernel
  resourcesApart := by decide +kernel
  resultApart := by decide +kernel
  wrapper := by
    intro rest data found
    have place : wrappedRecipe.disk.place toWorkingCopy.context.config.gradleResourcesPath =
        ["kit"] := by decide +kernel
    rw [place] at found
    have listed := Tree.mem_allFiles found
    simp [wrappedRecipe, Tree.allFiles] at listed
    exact .inr (.inr ⟨_, _, listed.1⟩)
  lines := by
    intro rest template data text route found decoded
    have place : wrappedRecipe.disk.place ⟨"recipe"⟩ = ["recipe"] := by decide +kernel
    rw [place] at found
    have listed := Tree.mem_allFiles found
    simp [wrappedRecipe, Tree.allFiles] at listed
    obtain ⟨rfl, -⟩ | ⟨rfl, rfl⟩ | ⟨rfl, -⟩ | ⟨rfl, -⟩ := listed
    · simp [Route.ofPlace, Route.ofName, Route.skippedFiles] at route
    · have same := decoded.symm.trans
        (fromUTF8?_written "agp $AGP_VERSION, kotlin $KOTLIN_VERSION\r\nend")
      cases same
      decide +kernel
    · simp [Route.ofPlace, Route.skippedFolders] at route
    · simp [Route.ofPlace, Route.ofName, Route.skippedFiles] at route

def workingCopied : Conversion where
  descriptor := ⟨"recipe", "recipe", "recipe", ⟨8, 1, 0, .final, 0⟩, none, [], none, []⟩
  destination := ⟨"copy/recipe"⟩
  outcome := .converted

theorem wrappedRecipe_given :
    (do
      let copied ← toWorkingCopy.convert ⟨"recipe"⟩ ⟨"copy"⟩
      let restored ← toSource.convert copied.destination ⟨"back"⟩
      return (copied, restored) : Action (Conversion × Conversion)).value? wrappedRecipe =
      some (workingCopied, { workingCopied with destination := ⟨"back/recipe"⟩ }) := by
  decide +kernel

theorem workingCopy_source_files_wrappedRecipe :
    ∃ copied between restored after,
      (toWorkingCopy.convert ⟨"recipe"⟩ ⟨"copy"⟩).run wrappedRecipe = .ok copied between ∧
      (toSource.convert copied.destination ⟨"back"⟩).run between = .ok restored after ∧
      after.disk.files (after.disk.place restored.destination ++ ["build.gradle"]) =
        some ⟨"agp $AGP_VERSION, kotlin $KOTLIN_VERSION\nend\n".toUTF8, false⟩ := by
  have run := run_eq_ok wrappedRecipe_given
  simp only [bind_eq_ok, pure_eq_ok, Prod.mk.injEq] at run
  obtain ⟨copied, between, copying, restored, after, restoring, ⟨rfl, rfl⟩, -⟩ := run
  refine ⟨_, _, _, _, copying, restoring, ?_⟩
  rw [workingCopy_source_files rfl rfl wrappedRecipe_ready copying _ restoring]
  · decide +kernel
  · intro values planned
    have mapped : wrappingContext.table.get? workingCopied.descriptor.minimum.line =
        some ⟨"8.0", "1.9.0"⟩ := by decide +kernel
    have known := (workingCopy_plan mapped).symm.trans planned
    cases known
    decide +kernel

end Converter

end Cookbook
