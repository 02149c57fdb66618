import Cookbook.Proofs.Convert.Confinement
import Cookbook.Proofs.Recipe.Destination

/-!
Conversions that may not overwrite. They keep every file there is, wherever it is: either there are no
files where the recipe is written to, or nothing is copied.
-/

namespace Cookbook

open Action

/-! ## Where copying stops -/

namespace Copy

theorem above_rootTarget {name : String} (nonempty : name ≠ "") (single : '/' ∉ name.toList) :
    (rootTarget ⟨name⟩).above = [⟨""⟩] := by
  have ends : Path.endsInSlash ⟨name⟩ = false := by
    have joined := Path.endsInSlash_joinName (p := ⟨""⟩) nonempty single
    rwa [Path.joinName, Path.join, if_neg (by simp [Path.isRelative_name single]),
      if_pos rfl] at joined
  have text : rootTarget ⟨name⟩ = ⟨String.ofList (name.toList ++ ['/'])⟩ := by
    simp [rootTarget, Path.joinName, Path.join, nonempty, ends]
  have pieces : Path.pieces ⟨String.ofList (name.toList ++ ['/'])⟩ = [name, ""] := by
    simp [Path.pieces, Text.fields_append, Text.fields_of_notMem single, Text.fields]
  have still : Path.isAbsolute ⟨String.ofList (name.toList ++ ['/'])⟩ = false := by
    rw [← text, isAbsolute_rootTarget]
    exact Path.isRelative_name single
  rw [text, Path.above, still, pieces]
  simp [Path.piecesAbove, Path.isIdle, nonempty, Path.piecesAbove.trimmedPieces, Path.ofPieces]

end Copy

namespace Disk

variable {d made : Disk} {p : Path} {name : String} {place : Location}

theorem isFolder_of_createFolders (nonempty : name ≠ "") (single : '/' ∉ name.toList)
    (there : d.Holds (d.place (Copy.rootTarget ⟨name⟩)))
    (created : d.createFolders (Copy.rootTarget ⟨name⟩) = (made, .ok ())) :
    d.isFolder (Copy.rootTarget ⟨name⟩) = true := by
  have fails (made : Disk) : d.createFolder (Copy.rootTarget ⟨name⟩) ≠ .ok made :=
    createFolder_ne_ok there
  have named : (Copy.rootTarget ⟨name⟩).text ≠ "" := Copy.text_rootTarget_ne_empty nonempty
  unfold createFolders at created
  rw [Copy.above_rootTarget nonempty single] at created
  generalize Copy.rootTarget ⟨name⟩ = p at *
  cases first : d.createFolder p with
  | ok made => exact absurd first (fails made)
  | error fault =>
      by_contra absent
      cases fault <;> simp [createChain, first, named, absent] at created

/-- A folder that cannot be seen to be empty, although files are in its place, cannot be made. -/
theorem createFolders_ne_ok (sound : d.Sound) (open_ : p.text = "" ∨ d.Leads p)
    (single : '/' ∉ name.toList) (named : (p.joinName name).text ≠ "")
    (empty : ∀ tree, d.list (p.joinName name) = .ok tree → tree.entries = [])
    (there : d.files place ≠ none) (below : d.place (p.joinName name) <+: place) :
    d.createFolders (Copy.rootTarget (p.joinName name)) ≠ (made, .ok ()) := by
  intro created
  obtain ⟨rest, longer⟩ := Copy.text_rootTarget (p.joinName name)
  have becomes := createFolders_becomes sound (Copy.rootTarget (p.joinName name))
  rw [created] at becomes
  have holds := holds_of_files there below
  rw [← Copy.place_rootTarget] at holds
  obtain nothing | folder := createFolders_isFolder sound holds created
  · exact Copy.text_rootTarget_ne_empty named nothing
  · obtain ⟨accepted, -, ⟨inner, inside⟩, usable⟩ := isFolder_iff.mp folder
    rw [becomes.place, Copy.place_rootTarget] at inside usable
    rw [becomes.refuse?] at accepted
    obtain ⟨rest, rfl⟩ := below
    -- Either the file stands where the folder would be, or the folder was there and lists something.
    cases rest with
    | nil =>
        rw [List.append_nil, ← becomes.files] at there
        obtain ⟨data, found⟩ := Option.ne_none_iff_exists'.mp there
        rw [files, Tree.fileAt?_eq_some, inside] at found
        cases found
    | cons next rest =>
        have leads : d.Leads (p.joinName name) := by
          obtain alone | leads := open_
          · have same : p.joinName name = ⟨name⟩ := by
              rw [Path.joinName, Path.join, if_neg (by simp [Path.isRelative_name single]),
                if_pos alone]
            rw [same] at named holds created ⊢
            exact Copy.leads_of_rootTarget
              (isFolder_iff.mp (isFolder_of_createFolders named single holds created)).2
          · exact ⟨leads.walk_joinName single, Tree.hasFolder_of_file there, usable⟩
        obtain ⟨content, list⟩ := list_of_isFolder
          (isFolder_iff.mpr ⟨refuse?_front longer named accepted, leads⟩)
        have nothing := empty content list
        rw [files, Tree.fileAt?_append (list_eq_ok list)] at there
        cases content with
        | empty => exact there rfl
        | file => simp [Tree.entries] at nothing
        | folder => simp [Tree.entries] at nothing

end Disk

namespace Copy

variable {plan : Plan} {source target : Path} {session : Session}

theorem recipeFolder_error {depth : Nat} (sound : session.disk.Sound)
    (blocked : ∀ made, session.disk.createFolders target ≠ (made, .ok ())) :
    ∃ failure after, (recipeFolder plan depth source target).run session = .error failure after ∧
      after.disk.files = session.disk.files := by
  cases depth with
  | zero => exact ⟨_, session, rfl, rfl⟩
  | succ depth =>
      rw [recipeFolder]
      cases list : session.disk.list source with
      | error fault => exact ⟨_, session, run_bind_of_error (look_of_error list), rfl⟩
      | ok tree =>
          rw [run_bind_of_ok (look_eq_ok.mpr ⟨list, rfl⟩)]
          cases created : session.disk.createFolders target with
          | mk made outcome =>
              cases outcome with
              | ok => exact absurd created (blocked made)
              | error fault =>
                  have becomes := Disk.createFolders_becomes sound target
                  rw [created] at becomes
                  exact ⟨_, _, run_bind_of_error (createFolders_of_error created), becomes.files⟩

theorem recipe_error {destination : Path} (plan : Plan) (source : Path) (sound : session.disk.Sound)
    (blocked : ∀ made, session.disk.createFolders (rootTarget destination) ≠ (made, .ok ())) :
    ∃ failure after, (recipe plan source destination).run session = .error failure after ∧
      after.disk.files = session.disk.files := by
  have limit : depthLimit.run session = .ok session.disk.pathLimit session := rfl
  rw [recipe, run_bind_of_ok limit]
  exact recipeFolder_error sound blocked

end Copy

/-! ## Conversions -/

namespace Converter

variable {converter : Converter} {source destination : Path} {session : Session} {place : Location}

theorem clearDestination_sameDisk (noOverwrite : converter.overwrite = false) (target : Path) :
    Keeps SameDisk (converter.clearDestination target) :=
  keeps_clearDestination fun overwrite => absurd overwrite (by simp [noOverwrite])

theorem carryOut_spares (sound : session.disk.Sound) (noOverwrite : converter.overwrite = false)
    (open_ : destination.text = "" ∨ session.disk.Leads destination) {name : String}
    (single : '/' ∉ name.toList)
    (named : (destination.joinName name).text ≠ "") (there : session.disk.files place ≠ none)
    (descriptor : Descriptor) :
    ((converter.carryOut source (destination.joinName name) descriptor).left
      session).disk.files place = session.disk.files place := by
  by_cases below : session.disk.place (destination.joinName name) <+: place
  · unfold carryOut
    cases clearing : (converter.clearDestination (destination.joinName name)).run session with
    | error failure after =>
        have sameDisk := clearDestination_sameDisk noOverwrite (destination.joinName name) session
        rw [left_bind_of_error clearing, ← left_of_error clearing, sameDisk]
    | ok _ cleared =>
        obtain ⟨rfl, empty⟩ | ⟨overwrite, -⟩ := clearDestination_eq_ok clearing
        · rw [left_bind_of_ok clearing]
          split
          · rfl
          · cases converter.mode.plan descriptor converter.context with
            | error failure => rfl
            | ok plan =>
                have blocked (made : Disk) : session.disk.createFolders
                    (Copy.rootTarget (destination.joinName name)) ≠ (made, .ok ()) :=
                  Disk.createFolders_ne_ok sound open_ single named empty there below
                obtain ⟨failure, after, copying, same⟩ := Copy.recipe_error plan source sound blocked
                rw [left_bind_of_ok (ofExcept_eq_ok.mpr ⟨rfl, rfl⟩), left_bind_of_error copying, same]
        · rw [noOverwrite] at overwrite
          cases overwrite
  · exact (carryOut_confined source _ descriptor session sound).outside place below

theorem convert_spares (sound : session.disk.Sound) (noOverwrite : converter.overwrite = false)
    (open_ : destination.text = "" ∨ session.disk.Leads destination)
    (named : ∀ target, converter.target? source destination session = some target → target.text ≠ "")
    (there : session.disk.files place ≠ none) :
    ((converter.convert source destination).left session).disk.files place =
      session.disk.files place := by
  obtain same | ⟨descriptor, loaded, load, left⟩ := converter.convert_left source destination session
  · rw [same]
  · have sameDisk : loaded.disk = session.disk := (Descriptor.load_sameDisk _ _).ok load
    have single := (Mode.destinationName_of_load load converter.mode).1
    rw [← sameDisk] at sound open_ there ⊢
    rw [left]
    exact carryOut_spares sound noOverwrite open_ single (named _ (target?_of_load load)) there
      descriptor

end Converter

end Cookbook
