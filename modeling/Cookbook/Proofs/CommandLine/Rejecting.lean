import Cookbook.Proofs.CommandLine.Convert
import Cookbook.Proofs.Convert.Rejecting

/-!
Requests for converting that are turned down because what they ask for cannot be used. All that is wrong
is found out before a file is touched, except that the folder of recipes is no folder: a batch that may
overwrite clears its destination first.
-/

namespace Cookbook

open Action

namespace CommandLine

/-- Whether a command fails because of what it was given to work with. -/
def Trouble.rejectsInput : Trouble → Bool
  | noDestination _ | malformedRelease _ _ | noRelease | notLoaded _ | notResolved _ _
  | destinationNotEmpty _ => true
  | notConverted _ cause | batchNotConverted _ cause => cause.refusesFolder
  | notLookedInto _ | notCleared _ _ | noSelection | noWorkingCopy | modeNotValidated _
  | notValidated _ _ => false

/-- Whether it fails because of the folder that all recipes are to be taken from. -/
def Trouble.rejectsBatch : Trouble → Bool
  | batchNotConverted _ cause => cause.refusesFolder
  | _ => false

namespace Command

theorem doing_eq_error {α : Type} {trouble : Failure → Trouble} {action : Action α} {reason : Trouble}
    {session after : Session} :
    (doing trouble action).run session = .error reason after ↔
      ∃ failure, trouble failure = reason ∧ action.run session = .error failure after := by
  cases run : action.run session with
  | ok value left => simp [doing_of_ok run]
  | error failure left => simp [doing_of_error run, and_comm]

theorem doing_failsOnly {α : Type} {kind : Trouble → Prop} {trouble : Failure → Trouble}
    {action : Action α} (only : FailsOnly (fun failure => kind (trouble failure)) action) :
    FailsOnly kind (doing trouble action) := by
  intro session reason after run
  obtain ⟨failure, rfl, failed⟩ := doing_eq_error.mp run
  exact only.of_run failed

end Command

namespace ConvertRequest

variable {request : ConvertRequest} {config : Config} {session after : Session} {converter : Converter}
  {source destination : Path} {trouble : Trouble}

/-! ## What fails -/

theorem prepare_rejects (request : ConvertRequest) (config : Config) :
    FailsOnly (fun trouble => trouble.rejectsInput = true ∧ trouble.rejectsBatch = false)
      (request.prepare config) := by
  refine failsOnly_bind failsOnly_get fun found => ?_
  dsimp only
  split
  · exact failsOnly_throw ⟨rfl, rfl⟩
  · refine failsOnly_bind ?_ fun release => failsOnly_bind ?_ fun context => ?_
    · unfold Command.readRelease
      split
      · exact failsOnly_pure _
      · split
        · exact failsOnly_pure _
        · exact failsOnly_throw ⟨rfl, rfl⟩
    · exact Command.doing_failsOnly fun _ _ _ _ => ⟨rfl, rfl⟩
    · refine failsOnly_bind ?_ fun mode => failsOnly_pure _
      unfold resolveMode
      split
      · exact failsOnly_pure _
      · exact failsOnly_pure _
      · exact failsOnly_throw ⟨rfl, rfl⟩
      · split
        · exact failsOnly_pure _
        · exact failsOnly_throw ⟨rfl, rfl⟩

theorem line_failsOnly {kind : Trouble → Prop} (text : String) : FailsOnly kind (Command.line text) :=
  failsOnly_modify _

theorem convertRecipe_of_error {failure : Failure}
    (run : (converter.convert source destination).run session = .error failure after) :
    (convertRecipe converter source destination).run session =
      .error (.notConverted source failure) after :=
  run_bind_of_error (Command.doing_of_error (run_bind_of_error run))

theorem convertRecipe_rejected
    (run : (convertRecipe converter source destination).run session = .error trouble after)
    (rejects : trouble.rejectsInput = true) : SameDisk session after ∧ trouble.rejectsBatch = false := by
  unfold convertRecipe at run
  obtain stopped | ⟨conversion, between, -, printing⟩ := bind_eq_error.mp run
  · obtain ⟨failure, rfl, failed⟩ := Command.doing_eq_error.mp stopped
    obtain turned | ⟨conversion, between, -, requiring⟩ := bind_eq_error.mp failed
    · exact ⟨Converter.convert_rejected turned rejects, rfl⟩
    · -- That the recipe does not support the release turns no folder down.
      have only : FailsOnly Failure.Incidental (Action.ofExcept (conversion.require converter.mode)) := by
        refine failsOnly_ofExcept ?_
        intro failure refused
        unfold Conversion.require at refused
        split at refused
        · cases refused
        · cases refused
          rfl
      exact absurd rejects (only.of_run requiring).not_refuses
  · exfalso
    exact (failsOnly_bind (line_failsOnly _) fun _ => failsOnly_pure _).elim printing

theorem clearDestination_rejected {overwrite : Bool}
    (run : (clearDestination overwrite destination).run session = .error trouble after)
    (rejects : trouble.rejectsInput = true) :
    trouble = .destinationNotEmpty destination ∧ after = session := by
  rw [clearDestination_run] at run
  split at run
  · cases run
    cases rejects
  · split at run
    · cases run
    · split at run
      · obtain ⟨failure, rfl, -⟩ := Command.doing_eq_error.mp run
        cases rejects
      · cases run
        exact ⟨rfl, rfl⟩

theorem convertAll_rejected (sound : session.disk.Sound)
    (run : (request.convertAll converter source).run session = .error trouble after)
    (rejects : trouble.rejectsInput = true) :
    after = session ∧ trouble.rejectsBatch = false ∨
      trouble.rejectsBatch = true ∧
        (clearDestination request.overwrite request.destination).run session = .ok () after := by
  unfold convertAll at run
  obtain stopped | ⟨_, cleared, clearing, run⟩ := bind_eq_error.mp run
  · obtain ⟨rfl, same⟩ := clearDestination_rejected stopped rejects
    exact .inl ⟨same, rfl⟩
  · right
    obtain stopped | ⟨batch, between, -, printing⟩ := bind_eq_error.mp run
    · obtain ⟨failure, rfl, failed⟩ := Command.doing_eq_error.mp stopped
      have clearedSound : cleared.disk.Sound :=
        (clearDestination_holdsNoMore sound clearing).1.sound sound
      obtain ⟨-, -, rfl⟩ := Converter.convertAll_rejected clearedSound failed rejects
      exact ⟨rejects, clearing⟩
    · exfalso
      exact (failsOnly_bind (failsOnly_forM line_failsOnly) fun _ => failsOnly_pure _).elim printing

theorem clearDestination_error {overwrite : Bool} (folder : session.disk.isFolder destination = true)
    (run : (clearDestination overwrite destination).run session = .error trouble after) :
    trouble.rejectsInput = true ∨ ∃ cause, trouble = .notCleared destination cause := by
  obtain ⟨tree, list⟩ := Disk.list_of_isFolder folder
  rw [clearDestination_run, list] at run
  dsimp only at run
  split at run
  · cases run
  · split at run
    · obtain ⟨cause, rfl, -⟩ := Command.doing_eq_error.mp run
      exact .inr ⟨cause, rfl⟩
    · cases run
      exact .inl rfl

theorem clearDestination_shrinking (overwrite : Bool) (destination : Path) :
    Keeps Shrinking (clearDestination overwrite destination) :=
  keeps_clearDestination fun _ => clearFolder_shrinking destination

theorem clearDestination_files {overwrite : Bool} (sound : session.disk.Sound)
    (run : (clearDestination overwrite destination).run session = .ok () after) (place : Location) :
    (session.disk.ShownIn destination place → after.disk.files place = none) ∧
      (¬ session.disk.ShownIn destination place → after.disk.files place = session.disk.files place) := by
  obtain ⟨rfl, tree, list, allHidden⟩ | ⟨-, clear⟩ := clearDestination_eq_ok run
  · refine ⟨?_, fun _ => rfl⟩
    rintro ⟨name, visible, below⟩
    refine Disk.files_of_unlisted sound list ?_ below
    rintro entry member rfl
    rw [allHidden entry member] at visible
    cases visible
  · have cleared := clearFolder_cleared sound clear
    exact ⟨cleared.gone place, cleared.files place⟩

/-! ## What cannot be used -/

/-- Why a request cannot be carried out on what a session finds. -/
inductive Unusable (request : ConvertRequest) (config : Config) (session : Session) : Prop
  | destination (missing : session.disk.isFolder request.destination = false)
  | release {text : String} {cause : Failure} (given : request.release = some text)
      (malformed : Release.read text = .error cause)
  | noRelease (releasing : request.mode = .release) (absent : request.release = none)
  | table {cause : Failure} (unloaded : (Context.load config).outcome session = .error cause)
  | target {text : String} {release : Release} {context : Context} {cause : Failure}
      (releasing : request.mode = .release) (given : request.release = some text)
      (read : Release.read text = .ok release)
      (loaded : (Context.load config).outcome session = .ok context)
      (unresolved : Target.resolve release request.gradleVersion context = .error cause)
  | source (missing : session.disk.isFolder request.selection.path = false)
  | occupied {root : Path} {tree : Tree} {entry : String × Entry}
      (selected : request.selection = .allBelow root) (sparing : request.overwrite = false)
      (list : session.disk.list request.destination = .ok tree) (member : entry ∈ tree.entries)
      (visible : isHidden entry.1 = false)
  | recipeOccupied {folder : Path} {context : Context} {descriptor : Descriptor} {tree : Tree}
      (selected : request.selection = .recipe folder) (sparing : request.overwrite = false)
      (loaded : (Context.load config).outcome session = .ok context)
      (described : (Descriptor.load folder context).outcome session = .ok descriptor)
      (list : session.disk.list
        (request.destination.joinName (request.mode.destinationName descriptor)) = .ok tree)
      (full : tree.entries ≠ [])

/-- A preparation that succeeds leaves only what is converted and where it is written to as unusable. -/
theorem prepare_usable (prepared : (request.prepare config).run session = .ok converter session)
    (unusable : request.Unusable config session) :
    session.disk.isFolder request.selection.path = false ∨
      (∃ root tree entry, request.selection = .allBelow root ∧ request.overwrite = false ∧
        session.disk.list request.destination = .ok tree ∧ entry ∈ tree.entries ∧
        isHidden entry.1 = false) ∨
      ∃ folder descriptor tree, request.selection = .recipe folder ∧ request.overwrite = false ∧
        (Descriptor.load folder converter.context).outcome session = .ok descriptor ∧
        session.disk.list
          (request.destination.joinName (converter.mode.destinationName descriptor)) = .ok tree ∧
        tree.entries ≠ [] := by
  obtain ⟨there, -, known, reading, loading, resolving⟩ := prepare_eq_ok prepared
  have contextKnown := outcome_of_ok (Command.doing_eq_ok.mp loading)
  -- Each reason that preparing would have met contradicts its success. The others are left for what
  -- follows it.
  cases unusable with
  | destination missing =>
      rw [there] at missing
      cases missing
  | release given malformed =>
      unfold Command.readRelease at reading
      simp only [given, malformed] at reading
      cases reading
  | noRelease releasing absent =>
      unfold Command.readRelease at reading
      rw [absent] at reading
      obtain ⟨rfl, -⟩ := pure_eq_ok.mp reading
      unfold resolveMode at resolving
      rw [releasing] at resolving
      cases resolving
  | table unloaded =>
      rw [contextKnown] at unloaded
      cases unloaded
  | target releasing given read loaded unresolved =>
      unfold Command.readRelease at reading
      simp only [given, read] at reading
      obtain ⟨rfl, -⟩ := pure_eq_ok.mp reading
      rw [contextKnown] at loaded
      cases loaded
      unfold resolveMode at resolving
      simp only [releasing, unresolved] at resolving
      cases resolving
  | source missing => exact .inl missing
  | occupied selected sparing list member visible =>
      exact .inr (.inl ⟨_, _, _, selected, sparing, list, member, visible⟩)
  | recipeOccupied selected sparing loaded described list full =>
      rw [contextKnown] at loaded
      cases loaded
      rw [← resolveMode_destinationName resolving] at list
      exact .inr (.inr ⟨_, _, _, selected, sparing, described, list, full⟩)

theorem convertAll_of_notFolder (sound : session.disk.Sound)
    (there : session.disk.isFolder request.destination = true)
    (missing : session.disk.isFolder source = false) :
    ∃ trouble after, (request.convertAll converter source).run session = .error trouble after ∧
      (trouble.rejectsInput = true ∨ ∃ cause, trouble = .notCleared request.destination cause) := by
  unfold convertAll
  cases clearing : (clearDestination request.overwrite request.destination).run session with
  | error trouble after =>
      exact ⟨trouble, after, run_bind_of_error clearing, clearDestination_error there clearing⟩
  | ok _ cleared =>
      obtain ⟨becomes, fewer⟩ := (clearDestination_shrinking _ _).ok clearing sound
      have still : cleared.disk.isFolder source = false := by
        rw [Bool.eq_false_iff]
        intro folder
        have back : session.disk = { cleared.disk with root := session.disk.root } := by
          rw [becomes.same]
        rw [Disk.isFolder_mono back fewer folder] at missing
        cases missing
      rw [run_bind_of_ok clearing]
      have failed := converter.convertAll_of_notFolder request.destination still
      exact ⟨_, cleared, run_bind_of_error (Command.doing_of_error failed), .inl rfl⟩

theorem convertAll_of_occupied {tree : Tree} {entry : String × Entry}
    (sparing : request.overwrite = false) (list : session.disk.list request.destination = .ok tree)
    (member : entry ∈ tree.entries) (visible : isHidden entry.1 = false) :
    (request.convertAll converter source).run session =
      .error (.destinationNotEmpty request.destination) session := by
  have shown : (tree.entries.all fun entry => isHidden entry.1) = false :=
    List.all_eq_false.mpr ⟨entry, member, by simp [visible]⟩
  unfold convertAll
  refine run_bind_of_error ?_
  rw [clearDestination_run, list, sparing]
  simp [shown]

/-- A request that cannot be carried out fails, and says so unless its destination cannot be cleared. -/
theorem run_of_unusable (sound : session.disk.Sound) (unusable : request.Unusable config session) :
    ∃ trouble after, (request.run config).run session = .error trouble after ∧
      (trouble.rejectsInput = true ∨ ∃ cause, trouble = .notCleared request.destination cause) := by
  rw [run_eq]
  cases preparing : (request.prepare config).run session with
  | error trouble after =>
      have rejects := ((request.prepare_rejects config).of_run preparing).1
      exact ⟨trouble, after, run_bind_of_error preparing, .inl rejects⟩
  | ok converter ready =>
      obtain rfl : session = ready := (request.prepare_keeps config).ok preparing
      obtain ⟨there, overwriting, -⟩ := prepare_eq_ok preparing
      rw [run_bind_of_ok preparing, carryOut]
      obtain missing | ⟨root, tree, entry, selected, sparing, list, member, visible⟩ |
          ⟨folder, descriptor, tree, selected, sparing, described, list, full⟩ :=
        prepare_usable preparing unusable
      · cases selection : request.selection with
        | recipe folder =>
            rw [selection] at missing
            exact ⟨_, session, convertRecipe_of_error (Converter.convert_of_notFolder _ missing), .inl rfl⟩
        | allBelow root =>
            rw [selection] at missing
            exact convertAll_of_notFolder sound there missing
      · rw [selected]
        exact ⟨_, session, convertAll_of_occupied sparing list member visible, .inl rfl⟩
      · rw [selected]
        cases present : session.disk.isFolder folder with
        | false =>
            exact ⟨_, session, convertRecipe_of_error (Converter.convert_of_notFolder _ present), .inl rfl⟩
        | true =>
            obtain ⟨failure, refuses, failed⟩ := Converter.convert_of_occupied
              (overwriting.trans sparing) present (run_of_outcome_ok described) list full
            exact ⟨_, _, convertRecipe_of_error failed, .inl refuses⟩

theorem run_rejected (sound : session.disk.Sound)
    (run : (request.run config).run session = .error trouble after)
    (rejects : trouble.rejectsInput = true) :
    SameDisk session after ∧ trouble.rejectsBatch = false ∨
      trouble.rejectsBatch = true ∧
        (clearDestination request.overwrite request.destination).run session = .ok () after := by
  rw [run_eq] at run
  obtain stopped | ⟨converter, ready, preparing, run⟩ := bind_eq_error.mp run
  · have kept : SameDisk session _ := request.prepare_keeps config session
    rw [left_of_error stopped] at kept
    exact .inl ⟨kept, ((request.prepare_rejects config).of_run stopped).2⟩
  · obtain rfl : session = ready := (request.prepare_keeps config).ok preparing
    unfold carryOut at run
    split at run
    · exact .inl (convertRecipe_rejected run rejects)
    · obtain ⟨rfl, early⟩ | late := convertAll_rejected sound run rejects
      · exact .inl ⟨rfl, early⟩
      · exact .inr late

end ConvertRequest

/-- A request that cannot be carried out fails. If it says so, the disk is as it was, unless the folder
of recipes is turned down and the request may overwrite: then all that the destination showed is gone,
and nothing else. -/
theorem rejection_keeps_files {session : Session} (sound : session.disk.Sound)
    (request : ConvertRequest) (config : Config) :
    (request.Unusable config session → ∃ trouble after,
      (request.run config).run session = .error trouble after ∧
        (trouble.rejectsInput = true ∨ ∃ cause, trouble = .notCleared request.destination cause)) ∧
    ∀ trouble after, (request.run config).run session = .error trouble after →
      trouble.rejectsInput = true →
      (trouble.rejectsBatch = false ∨ request.overwrite = false → after.disk = session.disk) ∧
      (trouble.rejectsBatch = true → request.overwrite = true → ∀ place,
        (session.disk.ShownIn request.destination place → after.disk.files place = none) ∧
        (¬ session.disk.ShownIn request.destination place →
          after.disk.files place = session.disk.files place)) := by
  refine ⟨ConvertRequest.run_of_unusable sound, ?_⟩
  intro trouble after run rejects
  obtain ⟨same, early⟩ | ⟨late, clearing⟩ := ConvertRequest.run_rejected sound run rejects
  · refine ⟨fun _ => same, ?_⟩
    intro late
    rw [early] at late
    cases late
  · refine ⟨?_, fun _ _ place => ConvertRequest.clearDestination_files sound clearing place⟩
    rintro (early | sparing)
    · rw [early] at late
      cases late
    · rw [sparing] at clearing
      exact (ConvertRequest.clearDestination_sameDisk request.destination).ok clearing

/-- A batch of recipes from a folder that is not there. -/
def fromNowhere (overwrite : Bool) : ConvertRequest :=
  { replaceAll with selection := .allBelow ⟨"missing"⟩, overwrite }

theorem fromNowhere_unusable (overwrite : Bool) : (fromNowhere overwrite).Unusable {} nestedRecipe := by
  have missing : nestedRecipe.disk.isFolder ⟨"missing"⟩ = false := by decide +kernel
  exact .source missing

theorem rejection_keeps_files_nestedRecipe :
    ∃ trouble after, ((fromNowhere false).run {}).run nestedRecipe = .error trouble after ∧
      trouble.rejectsInput = true ∧ after.disk = nestedRecipe.disk := by
  obtain ⟨fails, keeps⟩ := rejection_keeps_files nestedRecipe_sound (fromNowhere false) {}
  obtain ⟨trouble, after, run, -⟩ := fails (fromNowhere_unusable false)
  have rejects : (failure? ((fromNowhere false).run {}) nestedRecipe).any Trouble.rejectsInput = true := by
    decide +kernel
  rw [failure?, run] at rejects
  exact ⟨trouble, after, run, rejects, (keeps trouble after run rejects).1 (.inr rfl)⟩

theorem rejection_keeps_files_fails :
    ¬ ∀ (session : Session) (request : ConvertRequest) (config : Config) (trouble : Trouble)
      (after : Session), session.disk.Sound → request.Unusable config session →
      (request.run config).run session = .error trouble after → trouble.rejectsInput = true →
      ∀ place, after.disk.files place = session.disk.files place := by
  intro kept
  have lost : (failure? ((fromNowhere true).run {}) nestedRecipe).any Trouble.rejectsInput = true ∧
      (((fromNowhere true).run {}).left nestedRecipe).disk.files ["out", "old"] = none := by
    decide +kernel
  obtain ⟨fails, gone⟩ := lost
  obtain ⟨trouble, failing, rejects⟩ := (Option.any_eq_true _ _).mp fails
  rw [kept _ _ _ _ _ nestedRecipe_sound (fromNowhere_unusable true) (run_eq_error failing) rejects] at gone
  revert gone
  decide +kernel

end CommandLine
end Cookbook
