import Cookbook.CommandLine.Run
import Cookbook.Proofs.Convert.Sources

/-!
What the command for converting leaves of the recipes it is asked to convert. However it ends, without
leave to overwrite it keeps all their files, and with it those that no recipe is written over.
-/

namespace Cookbook.CommandLine

open Action

namespace Command

theorem doing_of_ok {α : Type} {trouble : Failure → Trouble} {action : Action α} {value : α}
    {session after : Session} (run : action.run session = .ok value after) :
    (doing trouble action).run session = .ok value after := by
  simp only [EStateM.run, doing] at run ⊢
  rw [run]

theorem doing_of_error {α : Type} {trouble : Failure → Trouble} {action : Action α}
    {failure : Failure} {session after : Session} (run : action.run session = .error failure after) :
    (doing trouble action).run session = .error (trouble failure) after := by
  simp only [EStateM.run, doing] at run ⊢
  rw [run]

theorem doing_left {α : Type} (trouble : Failure → Trouble) (action : Action α) (session : Session) :
    (doing trouble action).left session = action.left session := by
  cases run : action.run session with
  | ok value after => rw [left_of_ok run, left_of_ok (doing_of_ok run)]
  | error failure after => rw [left_of_error run, left_of_error (doing_of_error run)]

theorem doing_eq_ok {α : Type} {trouble : Failure → Trouble} {action : Action α} {value : α}
    {session after : Session} :
    (doing trouble action).run session = .ok value after ↔ action.run session = .ok value after := by
  cases run : action.run session with
  | ok given left => simp [doing_of_ok run]
  | error failure left => simp [doing_of_error run]

theorem doing_keeps {α : Type} {relation : Session → Session → Prop} {trouble : Failure → Trouble}
    {action : Action α} (keeps : Keeps relation action) : Keeps relation (doing trouble action) := by
  intro session
  rw [doing_left]
  exact keeps session

theorem line_sameDisk (text : String) : Keeps SameDisk (line text) := fun _ => rfl

section Keeps

variable {relation : Session → Session → Prop} [IsPreorder Session relation]

theorem readRelease_keeps (text : Option String) : Keeps relation (readRelease text) := by
  unfold readRelease
  split
  · exact keeps_pure _
  · split
    · exact keeps_pure _
    · exact keeps_throw _

theorem load_keeps (config : Config) : Keeps relation (load config) := by
  refine doing_keeps ?_
  unfold Context.load VersionTable.load
  refine keeps_bind (keeps_bind (keeps_isFile _) ?_) fun _ => keeps_pure _
  intro found
  split
  · exact keeps_bind (keeps_look _ _) fun _ => keeps_ofExcept _
  · exact keeps_throw _

end Keeps

end Command

/-- The name of the folder that a recipe is written to in a mode. -/
def ModeName.destinationName (mode : ModeName) (descriptor : Descriptor) : String :=
  match mode with
  | source | workingCopy => descriptor.folderName
  | release => descriptor.destination

namespace ConvertRequest

variable {request : ConvertRequest} {config : Config} {session : Session} {converter : Converter}
  {source destination : Path}

theorem resolveMode_keeps {relation : Session → Session → Prop} [Std.Refl relation]
    (request : ConvertRequest) (release : Option Release) (context : Context) :
    Keeps relation (request.resolveMode release context) := by
  unfold resolveMode
  split
  · exact keeps_pure _
  · exact keeps_pure _
  · exact keeps_throw _
  · split
    · exact keeps_pure _
    · exact keeps_throw _

theorem resolveMode_destinationName {release : Option Release} {context : Context} {mode : Mode}
    {after : Session} (run : (request.resolveMode release context).run session = .ok mode after) :
    mode.destinationName = request.mode.destinationName := by
  unfold resolveMode at run
  funext descriptor
  split at run
  · next named =>
      cases run
      rw [named]
      rfl
  · next named =>
      cases run
      rw [named]
      rfl
  · cases run
  · next named =>
      split at run
      · cases run
        rw [named]
        rfl
      · cases run

/-- What a request checks first, with the converter that comes out of it. -/
def prepare (request : ConvertRequest) (config : Config) : Command Converter := do
  if !(← get).disk.isFolder request.destination then throw (.noDestination request.destination)
  let release ← Command.readRelease request.release
  let context ← Command.load config
  let mode ← request.resolveMode release context
  return { mode, context, overwrite := request.overwrite }

/-- What a request does with a converter for its mode. -/
def carryOut (request : ConvertRequest) (converter : Converter) : Command Status :=
  match request.selection with
  | .recipe source => convertRecipe converter source request.destination
  | .allBelow source => request.convertAll converter source

theorem run_eq (request : ConvertRequest) (config : Config) :
    request.run config = request.prepare config >>= request.carryOut := by
  unfold run prepare
  rw [bind_assoc]
  congr 1
  funext session
  cases session.disk.isFolder request.destination with
  | false => rfl
  | true =>
      simp only [Bool.not_true, Bool.false_eq_true, if_false, bind_assoc, pure_bind]
      rfl

theorem prepare_keeps {relation : Session → Session → Prop} [IsPreorder Session relation]
    (request : ConvertRequest) (config : Config) : Keeps relation (request.prepare config) := by
  refine keeps_bind keeps_get fun found => ?_
  dsimp only
  split
  · exact keeps_throw _
  · refine keeps_bind (Command.readRelease_keeps _) fun release => ?_
    refine keeps_bind (Command.load_keeps _) fun context => ?_
    exact keeps_bind (request.resolveMode_keeps _ _) fun _ => keeps_pure _

theorem prepare_eq_ok {ready : Session}
    (run : (request.prepare config).run session = .ok converter ready) :
    session.disk.isFolder request.destination = true ∧ converter.overwrite = request.overwrite ∧
      ∃ release, (Command.readRelease request.release).run session = .ok release session ∧
        (Command.load config).run session = .ok converter.context session ∧
        (request.resolveMode release converter.context).run session = .ok converter.mode session := by
  have got : (get : Command Session).run session = .ok session session := rfl
  unfold prepare at run
  rw [run_bind_of_ok got] at run
  cases folder : session.disk.isFolder request.destination with
  | false =>
      rw [folder] at run
      cases run
  | true =>
      simp only [folder, Bool.not_true, Bool.false_eq_true, if_false, bind_eq_ok] at run
      obtain ⟨release, _, reading, context, _, loading, mode, _, resolving, run⟩ := run
      obtain ⟨rfl, rfl⟩ := pure_eq_ok.mp run
      obtain rfl : session = _ := (Command.readRelease_keeps _).ok reading
      obtain rfl : session = _ := (Command.load_keeps _).ok loading
      obtain rfl : session = _ := (request.resolveMode_keeps _ _).ok resolving
      exact ⟨rfl, rfl, release, reading, loading, resolving⟩

theorem run_left (request : ConvertRequest) (config : Config) (session : Session) :
    SameDisk session ((request.run config).left session) ∨
      session.disk.isFolder request.destination = true ∧ ∃ converter ready,
        SameDisk session ready ∧ converter.overwrite = request.overwrite ∧
        converter.mode.destinationName = request.mode.destinationName ∧
        (request.run config).left session = (request.carryOut converter).left ready := by
  rw [run_eq]
  obtain same | ⟨converter, ready, preparing, same, left⟩ :=
    left_bind_cases (request.prepare_keeps config) request.carryOut session
  · exact .inl same
  · obtain ⟨folder, overwriting, release, -, -, resolving⟩ := prepare_eq_ok preparing
    exact .inr ⟨folder, converter, ready, same, overwriting, resolveMode_destinationName resolving, left⟩

theorem convertRecipe_left (converter : Converter) (source destination : Path) (session : Session) :
    ((convertRecipe converter source destination).left session).disk =
      ((converter.convert source destination).left session).disk := by
  unfold convertRecipe
  rw [disk_left_bind, Command.doing_left, disk_left_bind]
  · exact fun _ => keeps_ofExcept _
  · exact fun _ => keeps_bind (Command.line_sameDisk _) fun _ => keeps_pure _

/-! ## Clearing the destination -/

theorem clearDestination_run (overwrite : Bool) (destination : Path) (session : Session) :
    (clearDestination overwrite destination).run session =
      match session.disk.list destination with
      | .error fault => .error (.notLookedInto (.io destination fault)) session
      | .ok tree =>
          if tree.entries.all fun entry => isHidden entry.1 then .ok () session
          else if overwrite then
            (Command.doing (.notCleared destination) (clearFolder destination)).run session
          else .error (.destinationNotEmpty destination) session := by
  unfold clearDestination
  cases list : session.disk.list destination with
  | error fault =>
      have failed : isEmptyFolder session.disk destination true = .error fault := by
        rw [isEmptyFolder, list]
        rfl
      exact run_bind_of_error (Command.doing_of_error (look_of_error failed))
  | ok tree =>
      have shown : isEmptyFolder session.disk destination true =
          .ok (tree.entries.all fun entry => isHidden entry.1) := by
        rw [isEmptyFolder, list]
        rfl
      rw [run_bind_of_ok (Command.doing_of_ok (look_eq_ok.mpr ⟨shown, rfl⟩))]
      dsimp only
      cases tree.entries.all fun entry => isHidden entry.1 with
      | true => rfl
      | false => cases overwrite <;> rfl

theorem keeps_clearDestination {relation : Session → Session → Prop} [IsPreorder Session relation]
    {overwrite : Bool} (clearing : overwrite = true → Keeps relation (clearFolder destination)) :
    Keeps relation (clearDestination overwrite destination) := by
  unfold clearDestination
  refine keeps_bind (Command.doing_keeps (keeps_look _ _)) ?_
  intro empty
  split
  · cases overwrite with
    | false => exact keeps_throw _
    | true => exact Command.doing_keeps (clearing rfl)
  · exact keeps_pure _

theorem clearDestination_sameDisk (destination : Path) :
    Keeps SameDisk (clearDestination false destination) :=
  keeps_clearDestination nofun

theorem clearDestination_confined (destination : Path) :
    Keeps (Confined destination true) (clearDestination true destination) :=
  keeps_clearDestination fun _ => clearFolder_confined destination

theorem clearDestination_eq_ok {overwrite : Bool} {after : Session}
    (run : (clearDestination overwrite destination).run session = .ok () after) :
    (session = after ∧ ∃ tree, session.disk.list destination = .ok tree ∧
      ∀ entry ∈ tree.entries, isHidden entry.1 = true) ∨
    overwrite = true ∧ (clearFolder destination).run session = .ok () after := by
  rw [clearDestination_run] at run
  split at run
  · cases run
  · next tree list =>
      split at run
      · next allHidden =>
          cases run
          exact .inl ⟨rfl, tree, list, by simpa using allHidden⟩
      · split at run
        · next overwriting => exact .inr ⟨overwriting, Command.doing_eq_ok.mp run⟩
        · cases run

/-! ## What is kept -/

/-- That no recipe which a request is about is to be written where files of the recipes are. -/
def AimsApart (request : ConvertRequest) (d : Disk) : Prop :=
  match request.selection with
  | .recipe source =>
      d.AimsApart source request.destination source request.mode.destinationName
  | .allBelow source => d.NoneShared source request.destination ∧ ∀ names, names ≠ [] →
      d.AimsApart source request.destination (source.joinNames names) request.mode.destinationName

theorem noneShared_index {tree : Tree} (sound : session.disk.Sound)
    (list : session.disk.list destination = .ok tree)
    (allHidden : ∀ entry ∈ tree.entries, isHidden entry.1 = true) (source : Path) :
    session.disk.NoneShared source (Batch.indexPath destination) := by
  intro place _ below
  rw [Batch.indexPath, Disk.place_joinName _ _ Index.fileName_proper] at below
  refine Disk.files_of_unlisted sound list ?_ below
  intro entry member named
  have visible : isHidden Index.fileName = false := by decide
  rw [← named, allHidden entry member] at visible
  cases visible

theorem clearDestination_holdsNoMore {overwrite : Bool} {cleared : Session}
    (sound : session.disk.Sound)
    (run : (clearDestination overwrite destination).run session = .ok () cleared) :
    session.disk.Becomes cleared.disk cleared.disk.files ∧ session.disk.HoldsNoMore cleared.disk := by
  obtain ⟨rfl, -⟩ | ⟨-, clear⟩ := clearDestination_eq_ok run
  · exact ⟨.refl sound, fun _ => rfl, fun _ _ => rfl⟩
  · obtain ⟨tree, -, becomes⟩ := clearFolder_becomes sound clear
    refine ⟨becomes.own, becomes.place, ?_⟩
    intro place there
    rw [becomes.files] at there ⊢
    dsimp only at there ⊢
    split at there
    · exact absurd rfl there
    · next spared => rw [if_neg spared]

theorem clearDestination_spares {overwrite : Bool} (sound : session.disk.Sound)
    (apart : overwrite = true → session.disk.NoneShared source destination) :
    session.disk.Spares (session.disk.place source)
      ((clearDestination overwrite destination).left session).disk := by
  cases overwrite with
  | false =>
      rw [clearDestination_sameDisk destination session]
      exact .refl _
  | true =>
      have confined := clearDestination_confined destination session sound
      exact fun place below there => confined.outside place ((apart rfl).outside below there)

theorem convertAll_keepsSource (sound : session.disk.Sound)
    (folder : session.disk.isFolder request.destination = true)
    (overwriting : converter.overwrite = request.overwrite)
    (naming : converter.mode.destinationName = request.mode.destinationName)
    (apart : request.overwrite = true → session.disk.NoneShared source request.destination ∧
      ∀ names, names ≠ [] → session.disk.AimsApart source request.destination
        (source.joinNames names) request.mode.destinationName) :
    session.disk.Spares (session.disk.place source)
      ((request.convertAll converter source).left session).disk := by
  have lines (batch : Batch) : Keeps SameDisk (do
      (report batch request.destination).forM Command.line
      return if batch.hasFailures then .someFailed else .complete : Command Status) :=
    keeps_bind (keeps_forM fun _ _ => Command.line_sameDisk _) fun _ => keeps_pure _
  have spared := clearDestination_spares sound fun overwrite => (apart overwrite).1
  unfold convertAll
  cases clearing : (clearDestination request.overwrite request.destination).run session with
  | error trouble after =>
      rw [left_of_error clearing] at spared
      rwa [left_bind_of_error clearing]
  | ok _ cleared =>
      rw [left_of_ok clearing] at spared
      rw [left_bind_of_ok clearing, disk_left_bind _ lines, Command.doing_left]
      obtain ⟨becomes, fewer⟩ := clearDestination_holdsNoMore sound clearing
      refine spared.trans ?_
      rw [← becomes.place]
      -- Nothing shows in a destination that is kept, so the index is no file of the source yet. One that
      -- is cleared shares nothing with the source.
      cases overwrite : request.overwrite with
      | false =>
          rw [overwrite] at clearing overwriting
          obtain ⟨rfl, tree, list, allHidden⟩ | ⟨absurdity, -⟩ := clearDestination_eq_ok clearing
          · refine Converter.convertAll_keepsSource sound ?_ ?_
            · exact noneShared_index sound list allHidden source
            · exact fun _ _ => .inl ⟨overwriting, (Disk.isFolder_iff.mp folder).2⟩
          · cases absurdity
      | true =>
          obtain ⟨shared, aims⟩ := apart overwrite
          refine Converter.convertAll_keepsSource (becomes.sound sound) ?_ ?_
          · intro place below belowIndex
            apply shared.mono fewer place below
            rw [Batch.indexPath, Disk.place_joinName _ _ Index.fileName_proper] at belowIndex
            exact (List.prefix_append _ _).trans belowIndex
          · intro names nonempty
            right
            rw [naming]
            exact (aims names nonempty).mono fewer

theorem carryOut_keepsSource (sound : session.disk.Sound)
    (folder : session.disk.isFolder request.destination = true)
    (overwriting : converter.overwrite = request.overwrite)
    (naming : converter.mode.destinationName = request.mode.destinationName)
    (apart : request.overwrite = true → request.AimsApart session.disk) :
    session.disk.Spares (session.disk.place request.selection.path)
      ((request.carryOut converter).left session).disk := by
  unfold carryOut
  unfold AimsApart at apart
  cases selection : request.selection with
  | allBelow source =>
      rw [selection] at apart
      exact convertAll_keepsSource sound folder overwriting naming apart
  | recipe source =>
      rw [selection] at apart
      simp only [convertRecipe_left]
      refine Converter.convert_keepsSource sound ?_
      intro risky
      rw [folder, overwriting] at risky
      rw [naming]
      exact apart (by simpa using risky)

end ConvertRequest

/-- Converting keeps every file of its source, unless it may overwrite, or converts to a path that is no
folder, and a recipe is to be written where files of the source are. -/
theorem converting_keeps_source {session : Session} (sound : session.disk.Sound) :
    (∀ (converter : Converter) (source destination : Path),
      (converter.overwrite = true ∨ session.disk.isFolder destination = false →
        session.disk.AimsApart source destination source converter.mode.destinationName) →
      session.disk.Spares (session.disk.place source)
        ((converter.convert source destination).left session).disk) ∧
    ∀ (request : ConvertRequest) (config : Config),
      (request.overwrite = true → request.AimsApart session.disk) →
      session.disk.Spares (session.disk.place request.selection.path)
        ((request.run config).left session).disk := by
  refine ⟨fun converter source destination => Converter.convert_keepsSource sound, ?_⟩
  intro request config apart
  obtain same | ⟨folder, converter, ready, sameDisk, overwriting, naming, left⟩ :=
    request.run_left config session
  · rw [same]
    exact .refl _
  · have disk : ready.disk = session.disk := sameDisk
    rw [← disk] at sound folder apart ⊢
    rw [left]
    exact request.carryOut_keepsSource sound folder overwriting naming apart

/-- A recipe in a folder of recipes, next to a destination that is not empty. -/
def nestedRecipe : Session where
  disk := {
    root := .folder "recipes"
      (.folder "recipe"
        (.file "recipe_metadata.toml" ⟨"[agpVersion]\nmin = \"8.1.0\"\n".toUTF8, false⟩ .empty)
        .empty)
      (.file "version_mappings.txt" ⟨"8.1;8.0;1.9.0\n".toUTF8, false⟩
        (.folder "out" (.file "old" ⟨.empty, false⟩ .empty) .empty))
    here := [] }

def replacing : Converter where
  mode := .source
  context := ⟨{}, .empty⟩
  overwrite := true

def replaceAll : ConvertRequest where
  selection := .allBelow ⟨"recipes"⟩
  destination := ⟨"out"⟩
  release := none
  mode := .source
  overwrite := true
  gradleVersion := none

theorem nestedRecipe_sound : nestedRecipe.disk.Sound := ⟨by decide, by simp [nestedRecipe]⟩

theorem nestedRecipe_apart : nestedRecipe.disk.NoneShared ⟨"recipes"⟩ ⟨"out"⟩ := by
  have source : nestedRecipe.disk.place ⟨"recipes"⟩ = ["recipes"] := by decide +kernel
  have destination : nestedRecipe.disk.place ⟨"out"⟩ = ["out"] := by decide +kernel
  rintro place ⟨rest, rfl⟩ below
  rw [source, destination] at below
  simp at below

theorem nestedRecipe_aimsApart (folder : Path) :
    nestedRecipe.disk.AimsApart ⟨"recipes"⟩ ⟨"out"⟩ folder (·.folderName) := by
  intro descriptor describes place below belowTarget
  obtain ⟨data, content, lookup, -, -, parsed⟩ := describes
  apply nestedRecipe_apart place below
  refine List.IsPrefix.trans ?_ belowTarget
  dsimp only
  rw [Descriptor.parse_folderName parsed]
  by_cases named : folder.name = ""
  · rw [named]
    exact (Copy.place_rootTarget _ _).symm ▸ List.prefix_rfl
  · rw [Disk.place_joinName _ _ (Path.proper_name named)]
    exact List.prefix_append _ _

theorem converting_keeps_source_nestedRecipe :
    nestedRecipe.disk.Sound ∧ replaceAll.AimsApart nestedRecipe.disk ∧
    ((replaceAll.run {}).left nestedRecipe).disk.files ["recipes", "recipe", "recipe_metadata.toml"] =
      some ⟨"[agpVersion]\nmin = \"8.1.0\"\n".toUTF8, false⟩ := by
  have apart : replaceAll.AimsApart nestedRecipe.disk :=
    ⟨nestedRecipe_apart, fun _ _ => nestedRecipe_aimsApart _⟩
  refine ⟨nestedRecipe_sound, apart, ?_⟩
  have kept := (converting_keeps_source nestedRecipe_sound).2 replaceAll {} (fun _ => apart)
    ["recipes", "recipe", "recipe_metadata.toml"] (by decide +kernel) (by decide +kernel)
  rw [kept]
  decide +kernel

theorem converting_keeps_source_fails :
    ¬ ∀ session : Session, session.disk.Sound →
      (∀ (converter : Converter) (source destination : Path),
        session.disk.Spares (session.disk.place source)
          ((converter.convert source destination).left session).disk) ∧
      ∀ (request : ConvertRequest) (config : Config),
        session.disk.Spares (session.disk.place request.selection.path)
          ((request.run config).left session).disk := by
  intro kept
  have lost := (kept nestedRecipe nestedRecipe_sound).1 replacing ⟨"recipes/recipe"⟩ ⟨"recipes"⟩
    ["recipes", "recipe", "recipe_metadata.toml"]
  revert lost
  decide +kernel

end Cookbook.CommandLine
