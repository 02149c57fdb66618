import Cookbook.Proofs.Convert.Finishing

/-!
Conversions and batches that are turned down. Copying fails only for what the disk says or for files
that are missing, so a failure that turns a folder down comes before anything is written or deleted.
-/

namespace Cookbook

/-- Whether a failure turns down a folder that was given to convert from or to. -/
def Failure.refusesFolder : Failure → Bool
  | notAFolder _ | destinationNotEmpty _ => true
  | _ => false

/-- That a failure turns no folder down, but tells what went wrong on the way. -/
def Failure.Incidental (failure : Failure) : Prop := failure.refusesFolder = false

theorem Failure.incidental_io (path : Path) (fault : DiskFault) : (io path fault).Incidental := rfl

theorem Failure.Incidental.not_refuses {failure : Failure} (incidental : failure.Incidental) :
    ¬ failure.refusesFolder = true := by
  rw [show failure.refusesFolder = false from incidental]
  exact Bool.false_ne_true

open Action

variable {source destination target : Path} {plan : Plan}

/-! ## How copying fails -/

section Copying

variable {kind : Failure → Prop} (io : ∀ path fault, kind (.io path fault))
include io

theorem clearFolder_failsOnly (folder : Path) : FailsOnly kind (clearFolder folder) := by
  refine failsOnly_bind (failsOnly_look io _ _) ?_
  intro tree
  refine failsOnly_forM ?_
  rintro ⟨name, entry⟩
  dsimp only [clearEntry]
  split
  · exact failsOnly_change io _ _
  · exact failsOnly_pure ()

namespace Copy

theorem fillFile_failsOnly (plan : Plan) (template : Template) (source target : Path) :
    FailsOnly kind (fillFile plan template source target) :=
  failsOnly_bind (failsOnly_look io _ _) fun _ => failsOnly_change io _ _

theorem recipeFile_failsOnly (plan : Plan) (name : String) (source target : Path) :
    FailsOnly kind (recipeFile plan name source target) := by
  unfold recipeFile
  split
  · exact failsOnly_pure ()
  · exact fillFile_failsOnly io _ _ _ _
  · exact failsOnly_change io _ _

theorem recipeFolder_failsOnly (plan : Plan) (depth : Nat) (source target : Path) :
    FailsOnly kind (recipeFolder plan depth source target) := by
  induction depth generalizing source target with
  | zero => exact failsOnly_throw (io _ _)
  | succ depth ih =>
      unfold recipeFolder
      refine failsOnly_bind (failsOnly_look io _ _) fun tree => ?_
      refine failsOnly_bind (failsOnly_createFolders io _) fun _ => failsOnly_forM ?_
      rintro ⟨name, entry⟩
      dsimp only
      split
      · split
        · exact failsOnly_pure ()
        · exact ih _ _
      · exact recipeFile_failsOnly io _ _ _ _

theorem wholeFolder_failsOnly (depth : Nat) (source target : Path) :
    FailsOnly kind (wholeFolder depth source target) := by
  induction depth generalizing source target with
  | zero => exact failsOnly_throw (io _ _)
  | succ depth ih =>
      unfold wholeFolder
      refine failsOnly_bind (failsOnly_createFolders io _) fun _ => ?_
      refine failsOnly_bind (failsOnly_look io _ _) fun tree => failsOnly_forM ?_
      rintro ⟨name, entry⟩
      dsimp only
      split
      · exact ih _ _
      · exact failsOnly_change io _ _

omit io in
theorem depthLimit_failsOnly : FailsOnly kind depthLimit := by
  intro session failure after run
  cases run

theorem recipe_failsOnly (plan : Plan) (source destination : Path) :
    FailsOnly kind (recipe plan source destination) :=
  failsOnly_bind depthLimit_failsOnly fun _ => recipeFolder_failsOnly io _ _ _ _

theorem whole_failsOnly (source destination : Path) : FailsOnly kind (whole source destination) :=
  failsOnly_bind depthLimit_failsOnly fun _ => wholeFolder_failsOnly io _ _ _

end Copy

theorem Converter.addWrapper_failsOnly (missing : ∀ path, kind (.missingFile path))
    (converter : Converter) (destination : Path) (plan : Plan) :
    FailsOnly kind (converter.addWrapper destination plan) := by
  refine failsOnly_bind (failsOnly_isFolder _) fun _ => ?_
  dsimp only
  split
  · exact failsOnly_throw (missing _)
  · refine failsOnly_bind (Copy.whole_failsOnly io _ _) fun _ => ?_
    refine failsOnly_bind (failsOnly_isFile _) fun _ => ?_
    split
    · exact failsOnly_throw (missing _)
    · refine failsOnly_bind (Copy.fillFile_failsOnly io _ _ _ _) fun _ => ?_
      refine failsOnly_bind (failsOnly_isFile _) fun _ => ?_
      split
      · exact failsOnly_change io _ _
      · exact failsOnly_pure ()

end Copying

theorem Mode.plan_eq_error {mode : Mode} {descriptor : Descriptor} {context : Context}
    {failure : Failure} (planning : mode.plan descriptor context = .error failure) :
    ∃ line, failure = .missingVersionMapping line := by
  have companions {line : ReleaseLine} {rest : Companions → Except Failure Plan}
      (total : ∀ found, (rest found).isOk = true)
      (failed : (context.companions line >>= rest) = .error failure) :
      failure = .missingVersionMapping line := by
    unfold Context.companions at failed
    split at failed
    · next found _ =>
        have answers := total found
        rw [show rest found = .error failure from failed] at answers
        cases answers
    · cases failed
      rfl
  cases mode with
  | source => cases planning
  | workingCopy => exact ⟨_, companions (fun _ => rfl) planning⟩
  | release target => exact ⟨_, companions (fun _ => rfl) planning⟩

/-! ## Clearing -/

/-- That a session is another one with files and folders taken away. -/
def Shrinking (session after : Session) : Prop :=
  session.disk.Sound →
    session.disk.Becomes after.disk after.disk.files ∧ after.disk.KeepsFolders session.disk

instance : IsPreorder Session Shrinking where
  refl _ sound := ⟨.refl sound, .refl _⟩
  trans _ _ _ first second sound := by
    obtain ⟨becomes, fewer⟩ := first sound
    obtain ⟨later, fewerLater⟩ := second (becomes.sound sound)
    exact ⟨becomes.trans later, fewerLater.trans fewer⟩

theorem clearFolder_shrinking (folder : Path) : Keeps Shrinking (clearFolder folder) := by
  refine keeps_bind (keeps_look _ _) fun tree => keeps_forM ?_
  rintro ⟨name, entry⟩ -
  dsimp only [clearEntry]
  split
  · refine keeps_change ?_
    intro session disk removed sound
    have becomes := Disk.remove_becomes sound removed
    exact ⟨becomes.own, Disk.remove_fewerFolders sound removed⟩
  · exact keeps_pure ()

/-! ## Conversions -/

namespace Converter

variable {converter : Converter} {session after : Session} {failure : Failure}
  {descriptor : Descriptor}

theorem clearDestination_rejected
    (run : (converter.clearDestination target).run session = .error failure after)
    (refuses : failure.refusesFolder = true) : after = session := by
  rw [clearDestination_run] at run
  split at run
  · cases run
    rfl
  · split at run
    · cases run
    · split at run
      · cases run
      · split at run
        · exact absurd refuses
            (FailsOnly.of_run (clearFolder_failsOnly Failure.incidental_io _) run).not_refuses
        · cases run
          rfl

theorem carryOut_rejected {source : Path}
    (run : (converter.carryOut source target descriptor).run session = .error failure after)
    (refuses : failure.refusesFolder = true) : after = session := by
  unfold carryOut at run
  obtain turned | ⟨_, cleared, -, run⟩ := bind_eq_error.mp run
  · exact clearDestination_rejected turned refuses
  · refine absurd refuses (Failure.Incidental.not_refuses (FailsOnly.of_run ?_ run))
    split
    · exact failsOnly_pure _
    · refine failsOnly_bind (failsOnly_ofExcept fun failure planning => ?_) fun plan => ?_
      · obtain ⟨line, rfl⟩ := Mode.plan_eq_error planning
        rfl
      · refine failsOnly_bind (Copy.recipe_failsOnly Failure.incidental_io _ _ _) fun _ => ?_
        split
        · refine failsOnly_bind ?_ fun _ => failsOnly_pure _
          exact addWrapper_failsOnly Failure.incidental_io (fun _ => rfl) converter target plan
        · exact failsOnly_pure _

/-- A conversion that turns a folder down leaves the disk as it was. -/
theorem convert_rejected {source : Path}
    (run : (converter.convert source destination).run session = .error failure after)
    (refuses : failure.refusesFolder = true) : SameDisk session after := by
  cases folder : session.disk.isFolder source with
  | false =>
      rw [convert_of_notFolder destination folder] at run
      cases run
      rfl
  | true =>
      cases load : (Descriptor.load source converter.context).run session with
      | error cause loaded =>
          rw [convert_of_unloaded destination folder load] at run
          cases run
          have kept := Descriptor.load_sameDisk source converter.context session
          rwa [left_of_error load] at kept
      | ok descriptor loaded =>
          rw [convert_of_load destination folder load] at run
          rw [carryOut_rejected run refuses]
          exact (Descriptor.load_sameDisk _ _).ok load

theorem clearDestination_of_occupied {tree : Tree} (kept : converter.overwrite = false)
    (list : session.disk.list target = .ok tree) (occupied : tree.entries ≠ []) :
    (converter.clearDestination target).run session =
      .error (.destinationNotEmpty target) session := by
  have folder := Disk.isFolder_of_list list
  have aside := Disk.not_isFile_of_isFolder folder
  have shown : tree.entries.isEmpty = false := by simp [occupied]
  rw [clearDestination_run, aside, list]
  simp [shown, kept]

theorem convert_of_occupied {source : Path} {loaded : Session} {tree : Tree}
    (kept : converter.overwrite = false) (folder : session.disk.isFolder source = true)
    (load : (Descriptor.load source converter.context).run session = .ok descriptor loaded)
    (list : session.disk.list
      (destination.joinName (converter.mode.destinationName descriptor)) = .ok tree)
    (occupied : tree.entries ≠ []) :
    ∃ failure, failure.refusesFolder = true ∧
      (converter.convert source destination).run session = .error failure loaded := by
  have sameDisk : loaded.disk = session.disk := (Descriptor.load_sameDisk _ _).ok load
  rw [← sameDisk] at list
  rw [convert_of_load destination folder load]
  exact ⟨_, rfl, run_bind_of_error (clearDestination_of_occupied kept list occupied)⟩

/-! ## Batches -/

theorem findRecipes_error {d : Disk} {root : Path} (folder : d.isFolder root = true)
    (failed : findRecipes d root = .error failure) : failure.Incidental := by
  obtain ⟨tree, entry⟩ := Disk.isFolder_iff_entry.mp folder
  unfold findRecipes at failed
  rw [entry] at failed
  dsimp only at failed
  split at failed
  · cases failed
    rfl
  · cases failed

theorem convertEach_failsOnly {kind : Failure → Prop} (destination : Path) (batch : Batch)
    (recipes : List Path) : FailsOnly kind (converter.convertEach destination batch recipes) := by
  intro session failure after run
  rw [convertEach_run] at run
  cases run

theorem convertAll_of_notFolder (converter : Converter) {source : Path} (destination : Path)
    (missing : session.disk.isFolder source = false) :
    (converter.convertAll source destination).run session = .error (.notAFolder source) session := by
  have looked : (isFolder source).run session = .ok false session := isFolder_eq_ok.mpr ⟨missing, rfl⟩
  unfold convertAll
  rw [run_bind_of_ok looked]
  rfl

/-- A batch that turns a folder down leaves the session as it was. -/
theorem convertAll_rejected {source : Path} (sound : session.disk.Sound)
    (run : (converter.convertAll source destination).run session = .error failure after)
    (refuses : failure.refusesFolder = true) :
    session.disk.isFolder source = false ∧ failure = .notAFolder source ∧ after = session := by
  cases folder : session.disk.isFolder source with
  | false =>
      rw [converter.convertAll_of_notFolder destination folder] at run
      cases run
      exact ⟨rfl, rfl, rfl⟩
  | true =>
      have looked : (isFolder source).run session = .ok true session :=
        isFolder_eq_ok.mpr ⟨folder, rfl⟩
      unfold convertAll at run
      rw [run_bind_of_ok looked] at run
      simp only [Bool.not_true, Bool.false_eq_true, if_false] at run
      -- The folder is still there when the recipes in it are looked for.
      exfalso
      obtain failed | ⟨_, begun, creating, run⟩ := bind_eq_error.mp run
      · exact (FailsOnly.of_run (failsOnly_createFolders Failure.incidental_io _) failed).not_refuses refuses
      · have got : (get : Action Session).run begun = .ok begun begun := rfl
        have there := createFolders_isFolder sound creating folder
        rw [run_bind_of_ok got] at run
        refine Failure.Incidental.not_refuses (FailsOnly.of_run ?_ run) refuses
        refine failsOnly_bind (failsOnly_ofExcept fun _ => findRecipes_error there) fun recipes => ?_
        refine failsOnly_bind (convertEach_failsOnly _ _ _) fun batch => ?_
        exact failsOnly_bind (failsOnly_change Failure.incidental_io _ _) fun _ => failsOnly_pure _

end Converter

end Cookbook
