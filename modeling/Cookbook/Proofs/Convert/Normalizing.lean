import Cookbook.Proofs.Convert.Confinement
import Cookbook.Proofs.Convert.RoundTrip
import Cookbook.Proofs.Placeholder.Rewrapping
import Cookbook.Proofs.Text.Endings

/-!
Line ends of recipes that are converted to source. A template without blocks comes out with a line feed
after each line. Of the carriage returns before a line feed only one goes each time, so that the file
is without them, and stays the same from then on, exactly if its lines end plainly.
-/

namespace Cookbook

/-! ## Unwrapping what was unwrapped -/

namespace Block

variable {style : CommentStyle}

theorem length_uncomment_le (style : CommentStyle) (line : String) :
    (style.uncomment line).toList.length ≤ line.toList.length := by
  unfold CommentStyle.uncomment
  split
  · rw [String.toList_ofList, List.length_drop]
    omega
  · exact Nat.le_refl _

theorem length_unlines_unwrapLine_le (style : CommentStyle) (block : Block) (line : String) :
    (Text.unlines (unwrapLine style block line).2).toList.length ≤ line.toList.length + 1 := by
  have nothing : (Text.unlines []).toList.length = 0 := rfl
  have single (line : String) : (Text.unlines [line]).toList.length = line.toList.length + 1 := by
    rw [Text.toList_unlines_cons, List.length_append, List.length_cons, nothing]
  have shorter := length_uncomment_le style line
  cases block
  all_goals
    unfold unwrapLine
    dsimp only
    split
    all_goals grind

theorem length_unlines_run_le (style : CommentStyle) (block : Block) (lines : List String) :
    (Text.unlines (run (unwrapLine style) block lines)).toList.length ≤
      (Text.unlines lines).toList.length := by
  induction lines generalizing block with
  | nil => exact Nat.le_refl _
  | cons line lines ih =>
      have first := length_unlines_unwrapLine_le style block line
      have rest := ih (unwrapLine style block line).1
      rw [run_cons, Text.unlines_append, String.toList_append, List.length_append,
        Text.toList_unlines_cons, List.length_append, List.length_cons]
      omega

theorem unwrap_again_iff {text : String} (unopened : style.opening ∉ Text.lines text) :
    Text.unlines (unwrap style (Text.lines (Text.unlines (unwrap style (Text.lines text))))) =
        Text.unlines (unwrap style (Text.lines text)) ↔
      Text.EndsPlainly text := by
  rw [Edit.unwrap_unopened unopened, Text.endsPlainly_iff]
  have unfed {line : String} (member : line ∈ Text.lines text) : '\n' ∉ line.toList :=
    Text.notMem_of_mem_lines member
  constructor
  · intro same line member returned
    -- The returned line is shorter when it is read again, and nothing makes up for that.
    have lengths := congrArg (·.toList.length) same
    have unwrapped := length_unlines_run_le style .outside
      (Text.lines (Text.unlines (Text.lines text)))
    have shorter := Text.length_relined_lt (fun _ member => unfed member) member returned
    dsimp only [unwrap] at lengths
    omega
  · intro plain
    rw [Text.lines_unlines_of_plain (fun _ member => unfed member) plain, Edit.unwrap_unopened unopened]

end Block

open Action

/-! ## Recipes converted to source -/

namespace Converter

variable {converter : Converter} {source destination : Path} {session after : Session}
  {conversion : Conversion} {rest : Location} {template : Template} {data : FileData} {text : String}

theorem source_eq_ok (isSource : converter.mode = .source)
    (run : (converter.convert source destination).run session = .ok conversion after) :
    ∃ cleared : Session, Confined conversion.destination converter.overwrite session cleared ∧
      (Copy.recipe .unwrap source conversion.destination).run cleared = .ok () after := by
  obtain ⟨loaded, cleared, load, -, clearing, outcome⟩ := convert_eq_ok run
  have sameDisk : loaded.disk = session.disk := (Descriptor.load_sameDisk _ _).ok load
  have confined : Confined conversion.destination converter.overwrite loaded cleared :=
    (clearDestination_confined _).ok clearing
  refine ⟨cleared, by rwa [Confined, ← sameDisk], ?_⟩
  cases result : conversion.outcome with
  | nonCompliant =>
      simp only [result, isSource, Mode.accepts] at outcome
      exact absurd outcome.1 (by decide)
  | converted =>
      simp only [result, isSource, Mode.plan, Mode.isSource] at outcome
      obtain ⟨-, plan, copied, planned, copying, same⟩ := outcome
      cases planned
      have unwrapped : copied = after := by simpa using same
      exact unwrapped ▸ copying

/-- What a template of a recipe is once it was converted to source, whatever was there before. -/
theorem source_file (isSource : converter.mode = .source) (sound : session.disk.Sound)
    (apart : Apart (session.disk.place source) (session.disk.place conversion.destination))
    (run : (converter.convert source destination).run session = .ok conversion after)
    (route : Route.ofPlace rest = .fill template)
    (found : session.disk.files (session.disk.place source ++ rest) = some data)
    (decoded : String.fromUTF8? data.bytes = some text) :
    ∃ file, after.disk.files (after.disk.place conversion.destination ++ rest) = some file ∧
      file.bytes =
        (Text.unlines (Block.unwrap template.style (Text.lines text))).toUTF8 := by
  obtain ⟨cleared, confined, copying⟩ := source_eq_ok isSource run
  have changes := confined sound
  rw [← changes.becomes.place, ← changes.becomes.place] at apart
  have becomes := Copy.recipe_becomes (changes.becomes.sound sound) apart copying
  have here : cleared.disk.files (cleared.disk.place source ++ rest) = some data := by
    rw [changes.becomes.place] at apart ⊢
    rw [changes.outside _ (by simpa [changes.becomes.place] using apart.notBelow rest), found]
  rw [becomes.place, becomes.files, transfer_below, here]
  simp only [Plan.fate, route]
  exact ⟨_, rfl, by simp only [FileData.rewritten, Plan.rewrite, decoded, Plan.apply]⟩

theorem convert_own (sound : session.disk.Sound)
    (run : (converter.convert source destination).run session = .ok conversion after) :
    session.disk.Becomes after.disk after.disk.files := by
  have changes := converter.convert_changes source destination session
  rw [left_of_ok run] at changes
  obtain same | ⟨target, -, confined⟩ := changes
  · rw [show after.disk = session.disk from same]
    exact .refl sound
  · exact (confined sound).becomes

/-- A template without blocks is written with a line feed after each line. There is no carriage return
before one, and converting it to source once more gives the same file, exactly if its lines end
plainly. -/
theorem source_endings (isSource : converter.mode = .source) (sound : session.disk.Sound)
    (apart : Apart (session.disk.place source) (session.disk.place conversion.destination))
    (run : (converter.convert source destination).run session = .ok conversion after)
    (route : Route.ofPlace rest = .fill template)
    (found : session.disk.files (session.disk.place source ++ rest) = some data)
    (decoded : String.fromUTF8? data.bytes = some text)
    (unopened : template.style.opening ∉ Text.lines text) :
    ∃ written file,
      after.disk.files (after.disk.place conversion.destination ++ rest) = some file ∧
      file.bytes = written.toUTF8 ∧
      (written = "" ∨ written.toList.getLast? = some '\n') ∧
      (¬ ['\r', '\n'] <:+: written.toList ↔ Text.EndsPlainly text) ∧
      ∀ (second : Converter) (results : Path) (restored : Conversion) (later : Session),
        second.mode = .source →
        Apart (session.disk.place conversion.destination) (session.disk.place restored.destination) →
        (second.convert conversion.destination results).run after = .ok restored later →
        ∃ again, later.disk.files (later.disk.place restored.destination ++ rest) = some again ∧
          (again.bytes = file.bytes ↔ Text.EndsPlainly text) := by
  obtain ⟨file, there, bytes⟩ := source_file isSource sound apart run route found decoded
  refine ⟨_, file, there, bytes, Text.unlines_ended _, ?_, ?_⟩
  · rw [Edit.unwrap_unopened unopened,
      Text.returnFeed_unlines_iff fun _ member => Text.notMem_of_mem_lines member,
      Text.endsPlainly_iff]
    simp only [not_exists, not_and]
  · intro second results restored later isSource' apart' run'
    have read : String.fromUTF8? file.bytes =
        some (Text.unlines (Block.unwrap template.style (Text.lines text))) := by
      rw [bytes, fromUTF8?_written]
    have becomes := convert_own sound run
    rw [← becomes.place, ← becomes.place] at apart'
    obtain ⟨again, there', bytes'⟩ :=
      source_file isSource' (becomes.sound sound) apart' run' route there read
    refine ⟨again, there', ?_⟩
    rw [← Block.unwrap_again_iff unopened, bytes', bytes]
    refine ⟨fun same => ?_, fun same => by rw [same]⟩
    have texts := congrArg String.fromUTF8? same
    rwa [fromUTF8?_written, fromUTF8?_written, Option.some.injEq] at texts

theorem source_endings_wrappedRecipe :
    ∃ once between twice after file again,
      (toSource.convert ⟨"recipe"⟩ ⟨"once"⟩).run wrappedRecipe = .ok once between ∧
      (toSource.convert once.destination ⟨"twice"⟩).run between = .ok twice after ∧
      between.disk.files (between.disk.place once.destination ++ ["build.gradle"]) = some file ∧
      after.disk.files (after.disk.place twice.destination ++ ["build.gradle"]) = some again ∧
      again.bytes = file.bytes := by
  have given : (do
      let once ← toSource.convert ⟨"recipe"⟩ ⟨"once"⟩
      let twice ← toSource.convert once.destination ⟨"twice"⟩
      return (once, twice) : Action (Conversion × Conversion)).value? wrappedRecipe =
      some ({ workingCopied with destination := ⟨"once/recipe"⟩ },
        { workingCopied with destination := ⟨"twice/recipe"⟩ }) := by
    decide +kernel
  have run := run_eq_ok given
  simp only [bind_eq_ok, pure_eq_ok, Prod.mk.injEq] at run
  obtain ⟨once, between, first, twice, after, second, ⟨rfl, rfl⟩, -⟩ := run
  have route : Route.ofPlace ["build.gradle"] = .fill .build := rfl
  obtain ⟨written, file, there, -, -, -, stays⟩ := source_endings rfl wrappedRecipe_ready.sound
    (by decide +kernel) first route
    (by decide +kernel : _ = some ⟨"agp $AGP_VERSION, kotlin $KOTLIN_VERSION\r\nend".toUTF8, false⟩)
    (fromUTF8?_written "agp $AGP_VERSION, kotlin $KOTLIN_VERSION\r\nend") (by decide +kernel)
  obtain ⟨again, there', same⟩ := stays toSource ⟨"twice"⟩ _ _ rfl (by decide +kernel) second
  exact ⟨_, _, _, _, _, _, first, second, there, there', same.mpr (by decide +kernel)⟩

/-- A recipe with two carriage returns before a line feed. -/
def returnedRecipe : Session where
  disk := {
    root := .folder "recipe"
      (.file "recipe_metadata.toml" ⟨"[agpVersion]\nmin = \"8.1.0\"\n".toUTF8, false⟩
        (.file "build.gradle" ⟨"a\r\r\n".toUTF8, false⟩ .empty))
      .empty
    here := [] }

theorem source_endings_fails :
    ¬ ∀ (converter : Converter) (source destination : Path) (session after : Session)
      (conversion : Conversion) (rest : Location) (template : Template) (data : FileData)
      (text : String), converter.mode = .source → session.disk.Sound →
      Apart (session.disk.place source) (session.disk.place conversion.destination) →
      (converter.convert source destination).run session = .ok conversion after →
      Route.ofPlace rest = .fill template →
      session.disk.files (session.disk.place source ++ rest) = some data →
      String.fromUTF8? data.bytes = some text → template.style.opening ∉ Text.lines text →
      ∃ written file,
        after.disk.files (after.disk.place conversion.destination ++ rest) = some file ∧
        file.bytes = written.toUTF8 ∧
        (written = "" ∨ written.toList.getLast? = some '\n') ∧
        ¬ ['\r', '\n'] <:+: written.toList ∧
        ∀ (second : Converter) (results : Path) (restored : Conversion) (later : Session),
          second.mode = .source →
          Apart (session.disk.place conversion.destination)
            (session.disk.place restored.destination) →
          (second.convert conversion.destination results).run after = .ok restored later →
          ∃ again, later.disk.files (later.disk.place restored.destination ++ rest) = some again ∧
            again.bytes = file.bytes := by
  intro normalizes
  have sound : returnedRecipe.disk.Sound := ⟨by decide +kernel, by simp [returnedRecipe]⟩
  have given : (toSource.convert ⟨"recipe"⟩ ⟨"once"⟩).value? returnedRecipe =
      some { workingCopied with destination := ⟨"once/recipe"⟩ } := by
    decide +kernel
  have run := run_eq_ok given
  obtain ⟨written, file, there, bytes, -, unreturned, -⟩ := normalizes _ _ _ _ _ _ ["build.gradle"]
    .build _ "a\r\r\n" rfl sound (by decide +kernel) run rfl
    (by decide +kernel : _ = some ⟨"a\r\r\n".toUTF8, false⟩) (fromUTF8?_written "a\r\r\n")
    (by decide +kernel)
  have left : (((toSource.convert ⟨"recipe"⟩ ⟨"once"⟩).left returnedRecipe).disk.files
      (((toSource.convert ⟨"recipe"⟩ ⟨"once"⟩).left returnedRecipe).disk.place ⟨"once/recipe"⟩ ++
        ["build.gradle"])) = some ⟨"a\r\n".toUTF8, false⟩ := by
    decide +kernel
  cases there.symm.trans left
  have texts := congrArg String.fromUTF8? bytes
  rw [fromUTF8?_written, fromUTF8?_written, Option.some.injEq] at texts
  subst texts
  revert unreturned
  decide +kernel

end Converter

end Cookbook
