import Cookbook.Proofs.Disk.Tree

/-!
The files of a disk under its operations. Each operation is told by the files that the disk holds
afterwards, place by place; making folders changes none.
-/

namespace Cookbook

theorem fromUTF8?_written (text : String) : String.fromUTF8? text.toUTF8 = some text := by
  rw [String.toUTF8_eq_toByteArray, String.fromUTF8?, dif_pos text.isValidUTF8]
  rfl

/-- What a file becomes when all of its content is written anew. -/
def FileData.rewritten (old : Option FileData) (bytes : ByteArray) : FileData where
  bytes
  executable := old.any (·.executable)

namespace Disk

def files (d : Disk) : Location → Option FileData := d.root.fileAt?

structure Sound (d : Disk) : Prop where
  root : d.root.Sound
  here : ∀ name ∈ d.here, ProperName name

/-- That a disk is another one but for its tree, which is sound and holds the given files. -/
structure Becomes (d made : Disk) (files : Location → Option FileData) : Prop where
  same : made = { d with root := made.root }
  root : made.root.Sound
  files : made.files = files

variable {d made : Disk} {p : Path} {tree : Tree} {entry : Entry}

theorem Becomes.refl (sound : d.Sound) : d.Becomes d d.files := ⟨rfl, sound.root, rfl⟩

theorem Becomes.here {files : Location → Option FileData} (becomes : d.Becomes made files) :
    made.here = d.here := by
  rw [becomes.same]

theorem Becomes.place {files : Location → Option FileData} (becomes : d.Becomes made files) (p : Path) :
    made.place p = d.place p := by
  rw [becomes.same]
  rfl

theorem Becomes.refuse? {files : Location → Option FileData} (becomes : d.Becomes made files)
    (p : Path) : made.refuse? p = d.refuse? p := by
  rw [becomes.same]
  rfl

theorem Becomes.sound {files : Location → Option FileData} (becomes : d.Becomes made files)
    (sound : d.Sound) : made.Sound := by
  refine ⟨becomes.root, ?_⟩
  rw [becomes.same]
  exact sound.here

theorem Becomes.trans {between : Disk} {files files' : Location → Option FileData}
    (first : d.Becomes between files) (second : between.Becomes made files') :
    d.Becomes made files' := by
  refine ⟨?_, second.root, second.files⟩
  rw [second.same, first.same]

theorem Becomes.congr {files files' : Location → Option FileData} (becomes : d.Becomes made files)
    (same : ∀ place, files place = files' place) : d.Becomes made files' :=
  ⟨becomes.same, becomes.root, becomes.files.trans (funext same)⟩

theorem Becomes.own {files : Location → Option FileData} (becomes : d.Becomes made files) :
    d.Becomes made made.files :=
  ⟨becomes.same, becomes.root, rfl⟩

theorem Sound.place (sound : d.Sound) (p : Path) : ∀ name ∈ d.place p, ProperName name := by
  apply follow_all_proper
  · intro name member
    split at member
    · cases member
    · exact sound.here name member
  · exact fun part member => Path.parts_pieces member

/-! ## What is at a place -/

theorem entryIn_eq_ok {place : Location} (found : entryIn tree place = .ok entry) : tree.at? place = some entry := by
  induction place generalizing tree with
  | nil =>
      cases found
      rfl
  | cons name place ih =>
      rw [entryIn] at found
      rw [Tree.at?]
      split at found
      · cases found
      · split at found
        · cases found
        · next inside => simpa [inside] using ih found
        · next inside =>
            split at found
            · next last =>
                cases found
                simp [inside, last]
            · cases found

theorem folderIn_eq_ok {place : Location} {content : Tree} (found : folderIn tree place = .ok content) :
    tree.at? place = some (.folder content) := by
  unfold folderIn at found
  split at found
  · next inside =>
      cases found
      exact entryIn_eq_ok inside
  · cases found
  · cases found

theorem entry_eq_ok (found : d.entry p = .ok entry) : d.root.at? (d.place p) = some entry := by
  unfold Disk.entry at found
  rw [except_bind_eq_ok] at found
  obtain ⟨place, located, found⟩ := found
  rw [← locate_eq_ok located]
  exact entryIn_eq_ok found

theorem isFile_iff_entry : d.isFile p = true ↔ ∃ data, d.entry p = .ok (.file data) := by
  unfold isFile
  split
  · next data found => simp [found]
  · next none_ => exact iff_of_false (by simp) fun ⟨data, found⟩ => none_ data found

theorem isFolder_iff_entry : d.isFolder p = true ↔ ∃ content, d.entry p = .ok (.folder content) := by
  unfold isFolder
  split
  · next content found => simp [found]
  · next none_ => exact iff_of_false (by simp) fun ⟨content, found⟩ => none_ content found

theorem not_isFile_of_isFolder (present : d.isFolder p = true) : d.isFile p = false := by
  obtain ⟨content, found⟩ := isFolder_iff_entry.mp present
  rw [isFile, found]

theorem readFile_iff_entry {data : FileData} :
    d.readFile p = .ok data ↔ d.entry p = .ok (.file data) := by
  unfold readFile
  rw [except_bind_eq_ok]
  constructor
  · rintro ⟨entry, found, read⟩
    cases entry with
    | folder content => cases read
    | file other =>
        cases read
        exact found
  · exact fun found => ⟨_, found, rfl⟩

theorem isFolder_of_list (found : d.list p = .ok tree) : d.isFolder p = true := by
  unfold list at found
  rw [except_bind_eq_ok] at found
  obtain ⟨place, located, found⟩ := found
  unfold folderIn at found
  have entry : d.entry p = entryIn d.root place := by
    unfold Disk.entry
    rw [located]
    rfl
  rw [isFolder, entry]
  split at found
  · next inside => rw [inside]
  · cases found
  · cases found

theorem list_eq_ok (found : d.list p = .ok tree) : d.root.at? (d.place p) = some (.folder tree) := by
  unfold list at found
  rw [except_bind_eq_ok] at found
  obtain ⟨place, located, found⟩ := found
  rw [← locate_eq_ok located]
  exact folderIn_eq_ok found

theorem files_of_unlisted {name : String} {place : Location} (sound : d.Sound) (list : d.list p = .ok tree)
    (absent : ∀ entry ∈ tree.entries, entry.1 ≠ name) (below : d.place p ++ [name] <+: place) :
    d.files place = none := by
  obtain ⟨rest, rfl⟩ := below
  have there := list_eq_ok list
  have treeSound : tree.Sound := sound.root.at? there
  rw [files, List.append_assoc, Tree.fileAt?_append there]
  cases inside : tree.get? name with
  | none => simp [Tree.fileAt?, inside]
  | some entry => exact absurd rfl (absent _ ((Tree.mem_entries_iff treeSound).mpr inside))

theorem spot_eq_ok {above : Location} {folder : Tree} {name : String}
    (found : d.spot p = .ok (above, folder, name)) :
    d.place p = above ++ [name] ∧ d.root.at? above = some (.folder folder) := by
  unfold spot at found
  rw [except_bind_eq_ok] at found
  obtain ⟨place, located, found⟩ := found
  rw [← locate_eq_ok located]
  split at found
  · cases found
  · next last =>
      rw [except_bind_eq_ok] at found
      obtain ⟨content, inside, found⟩ := found
      split at found
      · cases found
      · cases found
        obtain ⟨front, rfl⟩ := List.getLast?_eq_some_iff.mp last
        rw [List.dropLast_concat] at inside ⊢
        exact ⟨rfl, folderIn_eq_ok inside⟩

theorem readFile_eq_ok {data : FileData} (read : d.readFile p = .ok data) :
    d.files (d.place p) = some data :=
  Tree.fileAt?_eq_some.mpr (entry_eq_ok (readFile_iff_entry.mp read))

theorem readText_eq_ok {text : String} (read : d.readText p = .ok text) :
    ∃ data, d.files (d.place p) = some data ∧ String.fromUTF8? data.bytes = some text := by
  unfold readText at read
  rw [except_bind_eq_ok] at read
  obtain ⟨data, found, read⟩ := read
  split at read
  · next decoded =>
      cases read
      exact ⟨data, readFile_eq_ok found, decoded⟩
  · cases read

/-! ## What a change has done when it succeeds -/

theorem files_spot {above : Location} {folder : Tree} {name : String}
    (found : d.spot p = .ok (above, folder, name)) :
    d.files (d.place p) = folder.fileAt? [name] := by
  obtain ⟨place, inside⟩ := spot_eq_ok found
  rw [files, place, Tree.fileAt?_append inside]

theorem writeFile_eq_ok {bytes : ByteArray} (written : d.writeFile p bytes = .ok made) :
    ∃ above folder name, d.spot p = .ok (above, folder, name) ∧
      (∀ content, folder.get? name ≠ some (.folder content)) ∧
      made = { d with root := d.root.change (fun content =>
        content.set name (.file (.rewritten (d.files (d.place p)) bytes))) above } := by
  unfold writeFile at written
  rw [except_bind_eq_ok] at written
  obtain ⟨⟨above, folder, name⟩, found, written⟩ := written
  refine ⟨above, folder, name, found, ?_⟩
  rw [files_spot found, Tree.fileAt?]
  cases inside : folder.get? name with
  | none =>
      simp only [inside, writeFile.put, Except.ok.injEq] at written
      exact ⟨by simp, written.symm⟩
  | some entry =>
      cases entry with
      | folder content => simp [inside] at written
      | file data =>
          simp only [inside, writeFile.put, Except.ok.injEq] at written
          exact ⟨by simp, written.symm⟩

theorem setExecutable_eq_ok {executable : Bool} (changed : d.setExecutable p executable = .ok made) :
    ∃ above folder name data, d.spot p = .ok (above, folder, name) ∧
      folder.get? name = some (.file data) ∧
      made = { d with root := d.root.change (·.set name (.file { data with executable })) above } := by
  unfold setExecutable at changed
  rw [except_bind_eq_ok] at changed
  obtain ⟨⟨above, folder, name⟩, found, changed⟩ := changed
  dsimp only at changed
  split at changed
  · next data inside =>
      cases changed
      exact ⟨above, folder, name, data, found, inside, rfl⟩
  · cases changed
  · cases changed

/-- A file is copied by writing it twice, empty and then with what the source holds by then, and
giving it the permission that the source had at first. -/
theorem copyFile_eq_ok {source target : Path} (copied : d.copyFile source target = .ok made) :
    ∃ data emptied read written, d.entry source = .ok (.file data) ∧
      d.writeFile target ByteArray.empty = .ok emptied ∧ emptied.readFile source = .ok read ∧
      emptied.writeFile target read.bytes = .ok written ∧
      written.setExecutable target data.executable = .ok made := by
  unfold copyFile at copied
  rw [except_bind_eq_ok] at copied
  obtain ⟨entry, found, copied⟩ := copied
  cases entry with
  | folder content => cases copied
  | file data =>
      simp only [except_bind_eq_ok] at copied
      obtain ⟨emptied, emptying, read, reading, written, writing, setting⟩ := copied
      exact ⟨data, emptied, read, written, found, emptying, reading, writing, setting⟩

theorem createFolder_eq_ok (created : d.createFolder p = .ok made) :
    ∃ above folder name, d.spot p.withoutLastSlash = .ok (above, folder, name) ∧
      folder.get? name = none ∧
      made = { d with root := d.root.change (·.set name (.folder .empty)) above } := by
  unfold createFolder at created
  rw [except_bind_eq_ok] at created
  obtain ⟨place, -, created⟩ := created
  split at created
  · cases created
  · rw [except_bind_eq_ok] at created
    obtain ⟨⟨above, folder, name⟩, found, created⟩ := created
    dsimp only at created
    split at created
    · cases created
    · next absent =>
        cases created
        exact ⟨above, folder, name, found, absent, rfl⟩

theorem remove_eq_ok (removed : d.remove p = .ok made) :
    ∃ above folder name entry, d.spot p = .ok (above, folder, name) ∧
      folder.get? name = some entry ∧
      made = { d with root := d.root.change (·.erase name) above } := by
  unfold remove at removed
  rw [except_bind_eq_ok] at removed
  obtain ⟨⟨above, folder, name⟩, found, removed⟩ := removed
  dsimp only at removed
  split at removed
  · next entry inside =>
      cases removed
      exact ⟨above, folder, name, entry, found, inside, rfl⟩
  · cases removed

/-! ## Changes -/

theorem change_becomes (sound : d.Sound) (above : Location) {f : Tree → Tree}
    (keeps : ∀ content : Tree, content.Sound → (f content).Sound) :
    d.Becomes { d with root := d.root.change f above } (d.root.change f above).fileAt? :=
  ⟨rfl, sound.root.change keeps, rfl⟩

theorem Sound.spot {above : Location} {folder : Tree} {name : String} (sound : d.Sound)
    (found : d.spot p = .ok (above, folder, name)) : ProperName name := by
  apply sound.place p
  simp [(spot_eq_ok found).1]

theorem put_becomes (sound : d.Sound) {above : Location} {folder : Tree} {name : String}
    (found : d.spot p = .ok (above, folder, name))
    (noFolder : ∀ content, folder.get? name ≠ some (.folder content)) (data : FileData) :
    d.Becomes { d with root := d.root.change (·.set name (.file data)) above }
      (Function.update d.files (d.place p) (some data)) := by
  obtain ⟨place, inside⟩ := spot_eq_ok found
  have becomes := change_becomes sound above fun content contentSound =>
    contentSound.set (sound.spot found) (show (Entry.file data).Sound from trivial)
  rw [Tree.fileAt?_write inside noFolder, ← place] at becomes
  exact becomes

theorem writeFile_becomes (sound : d.Sound) {bytes : ByteArray}
    (written : d.writeFile p bytes = .ok made) :
    d.Becomes made (Function.update d.files (d.place p)
      (some (.rewritten (d.files (d.place p)) bytes))) := by
  obtain ⟨above, folder, name, found, noFolder, rfl⟩ := writeFile_eq_ok written
  exact put_becomes sound found noFolder _

theorem setExecutable_becomes (sound : d.Sound) {executable : Bool}
    (changed : d.setExecutable p executable = .ok made) :
    ∃ data, d.files (d.place p) = some data ∧
      d.Becomes made (Function.update d.files (d.place p) (some { data with executable })) := by
  obtain ⟨above, folder, name, data, found, inside, rfl⟩ := setExecutable_eq_ok changed
  refine ⟨data, by simp [files_spot found, Tree.fileAt?, inside], ?_⟩
  exact put_becomes sound found (by simp [inside]) { data with executable }

theorem copyFile_becomes (sound : d.Sound) {source target : Path}
    (apart : d.place source ≠ d.place target) (copied : d.copyFile source target = .ok made) :
    ∃ data, d.files (d.place source) = some data ∧
      d.Becomes made (Function.update d.files (d.place target) (some data)) := by
  obtain ⟨data, emptied, read, written, found, emptying, reading, writing, setting⟩ :=
    copyFile_eq_ok copied
  have here : d.files (d.place source) = some data := Tree.fileAt?_eq_some.mpr (entry_eq_ok found)
  have first := writeFile_becomes sound emptying
  have second := writeFile_becomes (first.sound sound) writing
  obtain ⟨last, lastHere, third⟩ := setExecutable_becomes (second.sound (first.sound sound)) setting
  have same := readFile_eq_ok reading
  rw [first.place, first.files, Function.update_of_ne apart, here, Option.some.injEq] at same
  rw [second.place, first.place, second.files, first.place, Function.update_self,
    Option.some.injEq] at lastHere
  rw [second.place, first.place, second.files, first.place, first.files, Function.update_idem,
    Function.update_idem] at third
  have all : { last with executable := data.executable } = data := by
    rw [← lastHere, same]
    rfl
  rw [all] at third
  exact ⟨data, here, (first.trans second).trans third⟩

theorem createFolder_files (created : d.createFolder p = .ok made) : made.files = d.files := by
  obtain ⟨above, folder, name, found, absent, rfl⟩ := createFolder_eq_ok created
  exact Tree.fileAt?_createFolder (spot_eq_ok found).2 absent

theorem createFolder_becomes (sound : d.Sound) (created : d.createFolder p = .ok made) :
    d.Becomes made d.files := by
  have files := createFolder_files created
  obtain ⟨above, folder, name, found, -, rfl⟩ := createFolder_eq_ok created
  have becomes := change_becomes sound above fun content contentSound =>
    contentSound.set (sound.spot found) (show (Entry.folder .empty).Sound from trivial)
  exact ⟨becomes.same, becomes.root, files⟩

theorem createChain_becomes (sound : d.Sound) (paths : List Path) :
    d.Becomes (d.createChain paths).1 d.files := by
  induction paths with
  | nil => exact .refl sound
  | cons p above ih =>
      rw [createChain]
      split
      · exact .refl sound
      · split
        · next created => exact createFolder_becomes sound created
        · split
          · next chain =>
              rw [chain] at ih
              exact ih
          · next between chain =>
              rw [chain] at ih
              split
              · next created =>
                  have becomes := createFolder_becomes (ih.sound sound) created
                  rw [ih.files] at becomes
                  exact ih.trans becomes
              · exact ih
        · exact .refl sound

theorem createFolders_becomes (sound : d.Sound) (p : Path) :
    d.Becomes (d.createFolders p).1 d.files := by
  unfold createFolders
  split
  · next created => exact createFolder_becomes sound created
  · exact createChain_becomes sound _
  · exact .refl sound

theorem remove_becomes (sound : d.Sound) (removed : d.remove p = .ok made) :
    d.Becomes made fun place => if d.place p <+: place then none else d.files place := by
  obtain ⟨above, folder, name, -, found, -, rfl⟩ := remove_eq_ok removed
  obtain ⟨place, inside⟩ := spot_eq_ok found
  refine ⟨rfl, sound.root.change fun content contentSound => contentSound.erase, ?_⟩
  funext other
  rw [place]
  exact Tree.fileAt?_erase inside (sound.root.at? inside) other

theorem size_remove (removed : d.remove p = .ok made) : made.root.size < d.root.size := by
  obtain ⟨above, folder, name, entry, found, present, rfl⟩ := remove_eq_ok removed
  exact Tree.size_change (spot_eq_ok found).2 (Tree.size_erase present)

end Disk
end Cookbook
