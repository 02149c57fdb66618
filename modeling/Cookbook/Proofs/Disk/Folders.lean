import Cookbook.Proofs.Disk.Files

/-!
Folders under the operations of a disk: only removing takes any away.
-/

namespace Cookbook
namespace Tree

variable {tree content : Tree} {name : String} {entry : Entry} {above place : Location}

def HasFolder (tree : Tree) (place : Location) : Prop :=
  ∃ content, tree.at? place = some (.folder content)

theorem hasFolder_nil : tree.HasFolder [] := ⟨tree, rfl⟩

@[simp] theorem hasFolder_empty : empty.HasFolder place ↔ place = [] := by
  cases place with
  | nil => simp [hasFolder_nil]
  | cons name place => simp [HasFolder, at?, get?]

theorem hasFolder_cons :
    tree.HasFolder (name :: place) ↔
      ∃ content, tree.get? name = some (.folder content) ∧ content.HasFolder place := by
  unfold HasFolder
  cases inside : tree.get? name with
  | none => simp [at?, inside]
  | some entry =>
      cases entry with
      | folder content => simp [at?, inside]
      | file data => by_cases last : place = [] <;> simp [at?, inside, last]

theorem at?_singleton : tree.at? [name] = tree.get? name := by
  rw [at?]
  cases tree.get? name with
  | none => rfl
  | some entry => cases entry <;> rfl

theorem at?_append (found : tree.at? above = some (.folder content)) (place : Location) :
    tree.at? (above ++ place) = content.at? place := by
  induction above generalizing tree with
  | nil =>
      cases found
      rfl
  | cons name above ih =>
      rw [at?] at found
      split at found
      · next inner inside => simp [at?, inside, ih found]
      · next data inside => split at found <;> cases found
      · cases found

theorem HasFolder.of_append (there : tree.HasFolder (above ++ place)) : tree.HasFolder above := by
  induction above generalizing tree with
  | nil => exact hasFolder_nil
  | cons name above ih =>
      rw [List.cons_append, hasFolder_cons] at there
      obtain ⟨content, inside, there⟩ := there
      exact hasFolder_cons.mpr ⟨content, inside, ih there⟩

theorem hasFolder_of_at? (there : tree.at? (above ++ name :: place) ≠ none) : tree.HasFolder above := by
  induction above generalizing tree with
  | nil => exact hasFolder_nil
  | cons step above ih =>
      rw [List.cons_append, at?] at there
      split at there
      · next content inside => exact hasFolder_cons.mpr ⟨content, inside, ih there⟩
      · simp at there
      · exact absurd rfl there

theorem hasFolder_of_file (there : tree.fileAt? (above ++ name :: place) ≠ none) :
    tree.HasFolder above := by
  by_contra noFolder
  exact there (fileAt?_below (fun content found => noFolder ⟨content, found⟩) place)

theorem HasFolder.erase (sound : tree.Sound) (there : tree.HasFolder place)
    (outside : ¬ [name] <+: place) : (tree.erase name).HasFolder place := by
  cases place with
  | nil => exact hasFolder_nil
  | cons step place =>
      obtain ⟨content, inside, there⟩ := hasFolder_cons.mp there
      have other : name ≠ step := by simpa using outside
      exact hasFolder_cons.mpr ⟨content, by rw [get?_erase sound, if_neg other, inside], there⟩

theorem HasFolder.of_erase (sound : tree.Sound) (there : (tree.erase name).HasFolder place) :
    tree.HasFolder place := by
  cases place with
  | nil => exact hasFolder_nil
  | cons step place =>
      obtain ⟨content, inside, there⟩ := hasFolder_cons.mp there
      rw [get?_erase sound] at inside
      split at inside
      · cases inside
      · exact hasFolder_cons.mpr ⟨content, inside, there⟩

theorem HasFolder.of_change {f : Tree → Tree} (found : tree.at? above = some (.folder content))
    (fewer : ∀ place, (f content).HasFolder place → content.HasFolder place)
    (there : (tree.change f above).HasFolder place) : tree.HasFolder place := by
  induction above generalizing tree place with
  | nil =>
      cases found
      exact fewer place there
  | cons name above ih =>
      rw [at?] at found
      split at found
      · next inner inside =>
          rw [Tree.change, inside] at there
          cases place with
          | nil => exact hasFolder_nil
          | cons step place =>
              obtain ⟨other, stepInside, there⟩ := hasFolder_cons.mp there
              by_cases same : step = name
              · subst same
                rw [get?_set_self] at stepInside
                cases stepInside
                exact hasFolder_cons.mpr ⟨inner, inside, ih found there⟩
              · rw [get?_set_of_ne same] at stepInside
                exact hasFolder_cons.mpr ⟨other, stepInside, there⟩
      · next data inside => split at found <;> cases found
      · cases found

theorem HasFolder.change {f : Tree → Tree} (found : tree.at? above = some (.folder content))
    (there : tree.HasFolder place)
    (keeps : ∀ rest, place = above ++ rest → content.HasFolder rest → (f content).HasFolder rest) :
    (tree.change f above).HasFolder place := by
  induction above generalizing tree place with
  | nil =>
      cases found
      exact keeps place rfl there
  | cons name above ih =>
      rw [at?] at found
      split at found
      · next inner inside =>
          rw [Tree.change, inside]
          cases place with
          | nil => exact hasFolder_nil
          | cons step place =>
              obtain ⟨other, stepInside, there⟩ := hasFolder_cons.mp there
              by_cases same : step = name
              · subst same
                rw [inside] at stepInside
                cases stepInside
                refine hasFolder_cons.mpr ⟨_, get?_set_self .., ih found there ?_⟩
                exact fun rest equal => keeps rest (by rw [equal, List.cons_append])
              · exact hasFolder_cons.mpr ⟨other, by rw [get?_set_of_ne same, stepInside], there⟩
      · next data inside => split at found <;> cases found
      · cases found

theorem hasFolder_set (noFolder : ∀ inner, tree.get? name ≠ some (.folder inner)) :
    (tree.set name entry).HasFolder place ↔ tree.HasFolder place ∨
      ∃ inner rest, entry = .folder inner ∧ inner.HasFolder rest ∧ place = name :: rest := by
  cases place with
  | nil => simp [hasFolder_nil]
  | cons step place =>
      rw [hasFolder_cons, hasFolder_cons]
      by_cases same : step = name
      · subst same
        simp [noFolder]
      · simp [get?_set_of_ne same, same]

theorem hasFolder_change_set (found : tree.at? above = some (.folder content))
    (noFolder : ∀ inner, content.get? name ≠ some (.folder inner)) :
    (tree.change (·.set name entry) above).HasFolder place ↔ tree.HasFolder place ∨
      ∃ inner rest, entry = .folder inner ∧ inner.HasFolder rest ∧
        place = above ++ [name] ++ rest := by
  induction above generalizing tree place with
  | nil =>
      cases found
      exact hasFolder_set noFolder
  | cons step above ih =>
      rw [at?] at found
      split at found
      · next inner inside =>
          rw [Tree.change, inside]
          cases place with
          | nil => simp [hasFolder_nil]
          | cons other place =>
              rw [hasFolder_cons, hasFolder_cons]
              by_cases same : other = step
              · subst same
                simp [inside, ih found]
              · simp [get?_set_of_ne same, same]
      · next data inside => split at found <;> cases found
      · cases found

end Tree

namespace Disk

variable {d made : Disk} {p : Path} {entry : Entry} {place : Location}

/-! ## What operations leave of folders -/

def KeepsFolders (d made : Disk) : Prop := ∀ place, d.root.HasFolder place → made.root.HasFolder place

theorem KeepsFolders.refl (d : Disk) : d.KeepsFolders d := fun _ there => there

theorem KeepsFolders.trans {between : Disk} (first : d.KeepsFolders between)
    (second : between.KeepsFolders made) : d.KeepsFolders made :=
  fun place there => second place (first place there)

/-- That a disk has the folders of another one and new ones. -/
def Adds (d made : Disk) (new : Location → Prop) : Prop :=
  ∀ place, made.root.HasFolder place ↔ d.root.HasFolder place ∨ new place

def SameFolders (d made : Disk) : Prop := d.Adds made fun _ => False

theorem Adds.keeps {new : Location → Prop} (adds : d.Adds made new) : d.KeepsFolders made :=
  fun place there => (adds place).mpr (.inl there)

theorem SameFolders.iff (same : d.SameFolders made) :
    made.root.HasFolder place ↔ d.root.HasFolder place := by
  simpa using same place

theorem SameFolders.refl (d : Disk) : d.SameFolders d := fun _ => (or_iff_left id).symm

theorem SameFolders.trans {between : Disk} (first : d.SameFolders between)
    (second : between.SameFolders made) : d.SameFolders made := by
  intro place
  rw [second.iff, first.iff, or_false]

/-- That a disk has the same files and folders as another one at and below a place. -/
def SameIn (d made : Disk) (above : Location) : Prop :=
  ∀ rest, made.files (above ++ rest) = d.files (above ++ rest) ∧
    (made.root.HasFolder (above ++ rest) ↔ d.root.HasFolder (above ++ rest))

theorem SameIn.symm {above : Location} (same : d.SameIn made above) : made.SameIn d above :=
  fun rest => ⟨(same rest).1.symm, (same rest).2.symm⟩

theorem SameIn.trans {between : Disk} {above : Location} (first : d.SameIn between above)
    (second : between.SameIn made above) : d.SameIn made above :=
  fun rest => ⟨(second rest).1.trans (first rest).1, (second rest).2.trans (first rest).2⟩

theorem SameIn.below {above : Location} (same : d.SameIn made above) (rest : Location) :
    d.SameIn made (above ++ rest) := by
  intro more
  rw [List.append_assoc]
  exact same (rest ++ more)

theorem set_adds {above : Location} {folder : Tree} {name : String}
    (found : d.spot p = .ok (above, folder, name))
    (noFolder : ∀ content, folder.get? name ≠ some (.folder content)) (entry : Entry) :
    d.Adds { d with root := d.root.change (·.set name entry) above } fun place =>
      ∃ inner rest, entry = .folder inner ∧ inner.HasFolder rest ∧ place = d.place p ++ rest := by
  intro place
  rw [(spot_eq_ok found).1]
  exact Tree.hasFolder_change_set (spot_eq_ok found).2 noFolder

theorem set_file_sameFolders {above : Location} {folder : Tree} {name : String}
    (found : d.spot p = .ok (above, folder, name))
    (noFolder : ∀ content, folder.get? name ≠ some (.folder content)) (data : FileData) :
    d.SameFolders { d with root := d.root.change (·.set name (.file data)) above } := by
  simpa [SameFolders] using set_adds found noFolder (.file data)

theorem writeFile_sameFolders {bytes : ByteArray} (written : d.writeFile p bytes = .ok made) :
    d.SameFolders made := by
  obtain ⟨above, folder, name, found, noFolder, rfl⟩ := writeFile_eq_ok written
  exact set_file_sameFolders found noFolder _

theorem setExecutable_sameFolders {executable : Bool}
    (changed : d.setExecutable p executable = .ok made) : d.SameFolders made := by
  obtain ⟨above, folder, name, data, found, inside, rfl⟩ := setExecutable_eq_ok changed
  exact set_file_sameFolders found (by simp [inside]) _

theorem copyFile_sameFolders {source target : Path} (copied : d.copyFile source target = .ok made) :
    d.SameFolders made := by
  obtain ⟨data, emptied, read, written, -, emptying, -, writing, setting⟩ := copyFile_eq_ok copied
  exact ((writeFile_sameFolders emptying).trans (writeFile_sameFolders writing)).trans
    (setExecutable_sameFolders setting)

theorem createFolder_adds (created : d.createFolder p = .ok made) :
    d.Adds made (· = d.place p.withoutLastSlash) := by
  obtain ⟨above, folder, name, found, absent, rfl⟩ := createFolder_eq_ok created
  intro place
  rw [set_adds found (by simp [absent]) _ place]
  simp

theorem createChain_keepsFolders (d : Disk) (paths : List Path) :
    d.KeepsFolders (d.createChain paths).1 := by
  induction paths with
  | nil => exact .refl d
  | cons p above ih =>
      rw [createChain]
      split
      · exact .refl d
      · split
        · next created => exact (createFolder_adds created).keeps
        · split
          · next chain =>
              rw [chain] at ih
              exact ih
          · next chain =>
              rw [chain] at ih
              split
              · next created => exact ih.trans ((createFolder_adds created).keeps)
              · exact ih
        · exact .refl d

theorem createFolders_keepsFolders (d : Disk) (p : Path) : d.KeepsFolders (d.createFolders p).1 := by
  unfold createFolders
  split
  · next created => exact (createFolder_adds created).keeps
  · exact d.createChain_keepsFolders _
  · exact .refl d

theorem remove_fewerFolders (sound : d.Sound) (removed : d.remove p = .ok made) :
    made.KeepsFolders d := by
  obtain ⟨above, folder, name, -, found, -, rfl⟩ := remove_eq_ok removed
  obtain ⟨-, inside⟩ := spot_eq_ok found
  exact fun place there =>
    there.of_change inside fun _ => Tree.HasFolder.of_erase (sound.root.at? inside)

theorem remove_folders (sound : d.Sound) (removed : d.remove p = .ok made)
    (outside : ¬ d.place p <+: place) (there : d.root.HasFolder place) :
    made.root.HasFolder place := by
  obtain ⟨above, folder, name, -, found, -, rfl⟩ := remove_eq_ok removed
  obtain ⟨here, inside⟩ := spot_eq_ok found
  refine there.change inside ?_
  intro rest equal there
  refine there.erase (sound.root.at? inside) ?_
  rwa [equal, here, List.prefix_append_right_inj] at outside

theorem remove_gone (sound : d.Sound) (removed : d.remove p = .ok made) (below : d.place p <+: place) :
    ¬ made.root.HasFolder place := by
  obtain ⟨above, folder, name, -, found, -, rfl⟩ := remove_eq_ok removed
  obtain ⟨here, inside⟩ := spot_eq_ok found
  rw [here] at below
  obtain ⟨rest, rfl⟩ := below
  rintro ⟨content, there⟩
  rw [List.append_assoc, Tree.at?_append (Tree.at?_change inside _), List.singleton_append, Tree.at?,
    Tree.get?_erase (sound.root.at? inside), if_pos rfl] at there
  cases there

theorem remove_hasFolder (sound : d.Sound) (removed : d.remove p = .ok made) :
    made.root.HasFolder place ↔ d.root.HasFolder place ∧ ¬ d.place p <+: place :=
  ⟨fun there => ⟨remove_fewerFolders sound removed place there,
      fun below => remove_gone sound removed below there⟩,
    fun ⟨there, outside⟩ => remove_folders sound removed outside there⟩

theorem files_of_hasFolder (there : d.root.HasFolder place) : d.files place = none := by
  obtain ⟨content, found⟩ := there
  rw [Option.eq_none_iff_forall_ne_some]
  intro data file
  rw [files, Tree.fileAt?_eq_some, found] at file
  cases file

theorem folders_of_unlisted {tree : Tree} {name : String} (sound : d.Sound) (list : d.list p = .ok tree)
    (absent : ∀ entry ∈ tree.entries, entry.1 ≠ name) (below : d.place p ++ [name] <+: place) :
    ¬ d.root.HasFolder place := by
  obtain ⟨rest, rfl⟩ := below
  rintro ⟨content, there⟩
  have listed := list_eq_ok list
  rw [List.append_assoc, Tree.at?_append listed, List.singleton_append, Tree.at?] at there
  cases inside : tree.get? name with
  | none => simp [inside] at there
  | some entry =>
      exact absent _ ((Tree.mem_entries_iff (sound.root.at? listed)).mpr inside) rfl

end Disk
end Cookbook
