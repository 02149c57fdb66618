import Cookbook.Proofs.Disk.Retaining

/-!
Operations that succeed. A folder that is there can be made again, and so can a new one in a folder that
is there; a file that is there can be written again, and copied to where any file can be written.
-/

namespace Cookbook

namespace Disk

variable {d made : Disk} {p source target : Path} {name : String} {place : Location}

/-! ## Names -/

/-- That a name can be used in a folder: its path can be used, and the name is not too long. -/
structure Admits (d : Disk) (p : Path) (name : String) : Prop where
  accepted : d.refuse? (p.joinName name) = none
  short : name.utf8ByteSize ≤ nameLimit

theorem Becomes.admits {files : Location → Option FileData} (becomes : d.Becomes made files) :
    made.Admits p name ↔ d.Admits p name := by
  have same := becomes.refuse? (p.joinName name)
  exact ⟨fun admits => ⟨same ▸ admits.accepted, admits.short⟩,
    fun admits => ⟨same.trans admits.accepted, admits.short⟩⟩

theorem admits_of_leads (proper : ProperName name)
    (led : (p.joinName name).text = "" ∨
      d.Leads (p.joinName name) ∧ d.refuse? (p.joinName name).withoutLastSlash = none) :
    d.Admits p name := by
  obtain empty | ⟨leads, accepted⟩ := led
  · exact absurd empty (Path.text_joinName_ne_empty p proper.nonempty proper.single)
  · have ends := Path.endsInSlash_joinName (p := p) proper.nonempty proper.single
    rw [Path.withoutLastSlash_of_noSlash ends] at accepted
    refine ⟨accepted, leads.usable name ?_⟩
    rw [place_joinName _ _ proper]
    simp

theorem admits_of_writeFile {bytes : ByteArray} (proper : ProperName name)
    (written : d.writeFile (p.joinName name) bytes = .ok made) :
    d.Admits p name := by
  obtain ⟨accepted, -, short, -⟩ := (writeFile_ok_iff proper bytes).mp ⟨made, written⟩
  exact ⟨accepted, short⟩

/-! ## Folders -/

/-- That a folder can be made, or is there, with no other folder to be made on the way. -/
def Creatable (d : Disk) (p : Path) : Prop :=
  ∃ made, d.createFolders p = (made, .ok ()) ∧ made.Leads p ∧ d.Adds made (· = d.place p)

theorem creatable_of_isFolder (folder : d.isFolder p = true) : d.Creatable p := by
  obtain ⟨-, leads⟩ := isFolder_iff.mp folder
  refine ⟨d, createFolders_there folder, leads, fun place => ?_⟩
  exact (or_iff_left_of_imp fun same => same ▸ leads.folder).symm

theorem Leads.creatable (leads : d.Leads p) (proper : ProperName name) (admits : d.Admits p name)
    (noFile : d.files (d.place p ++ [name]) = none) : d.Creatable (p.joinName name) := by
  obtain ⟨accepted, short⟩ := admits
  by_cases there : d.root.HasFolder (d.place p ++ [name])
  · exact creatable_of_isFolder (isFolder_iff.mpr ⟨accepted, leads.joinName proper there short⟩)
  · obtain ⟨folder, above, spot⟩ := leads.spot_joinName proper accepted short
    have free : folder.get? name = none := by
      cases inside : folder.get? name with
      | none => rfl
      | some entry =>
          have found : d.root.at? (d.place p ++ [name]) = some entry := by
            rw [Tree.at?_append above, Tree.at?_singleton, inside]
          cases entry with
          | file data => simp [files, Tree.fileAt?_eq_some.mpr found] at noFile
          | folder content => exact absurd ⟨content, found⟩ there
    have ends := Path.endsInSlash_joinName (p := p) proper.nonempty proper.single
    have created : d.createFolder (p.joinName name) =
        .ok { d with root := d.root.change (·.set name (.folder .empty)) (d.place p) } := by
      unfold createFolder
      simp only [Path.withoutLastSlash_of_noSlash ends, leads.locate_joinName proper accepted, spot,
        bind, Except.bind, List.getLast?_concat, free]
    refine ⟨_, ?_, (createFolder_leads created).1, ?_⟩
    · unfold createFolders
      rw [created]
    · have adds := createFolder_adds created
      rwa [place_withoutLastSlash] at adds

theorem Leads.remove_ok (leads : d.Leads p) (proper : ProperName name) (admits : d.Admits p name)
    (there : d.Holds (d.place p ++ [name])) : ∃ made, d.remove (p.joinName name) = .ok made := by
  obtain ⟨folder, above, spot⟩ := leads.spot_joinName proper admits.accepted admits.short
  have inside := there.at?
  rw [Tree.at?_append above, Tree.at?_singleton] at inside
  obtain ⟨entry, found⟩ := Option.ne_none_iff_exists'.mp inside
  simp only [remove, spot, bind, Except.bind, found]
  exact ⟨_, rfl⟩

/-! ## Files -/

theorem spot_of_isFile (file : d.isFile p = true) :
    ∃ above folder name data, d.spot p = .ok (above, folder, name) ∧
      folder.get? name = some (.file data) := by
  obtain ⟨data, found⟩ := isFile_iff_entry.mp file
  obtain ⟨located, there, usable⟩ := entry_iff.mp found
  obtain top | ⟨above, name, place⟩ := (d.place p).eq_nil_or_concat
  · rw [top] at there
    cases there
  · rw [place, List.concat_eq_append] at located there usable
    obtain ⟨folder, inside⟩ : d.root.HasFolder above :=
      Tree.hasFolder_of_at? (there.trans_ne (Option.some_ne_none _))
    rw [Tree.at?_append inside, Tree.at?_singleton] at there
    have aboveUsable : ∀ other ∈ above, other.utf8ByteSize ≤ nameLimit :=
      fun other member => usable other (List.mem_append_left _ member)
    refine ⟨above, folder, name, data, ?_, there⟩
    simp only [spot, located, bind, Except.bind, List.getLast?_concat, List.dropLast_concat,
      folderIn_iff.mpr ⟨inside, aboveUsable⟩, Nat.not_lt.mpr (usable name (by simp)), if_false]

theorem writeFile_of_isFile (file : d.isFile p = true) (bytes : ByteArray) :
    ∃ made, d.writeFile p bytes = .ok made := by
  obtain ⟨above, folder, name, data, found, there⟩ := spot_of_isFile file
  simp only [writeFile, found, bind, Except.bind, there]
  exact ⟨_, rfl⟩

theorem setExecutable_of_isFile (file : d.isFile p = true) (executable : Bool) :
    ∃ made, d.setExecutable p executable = .ok made := by
  obtain ⟨above, folder, name, data, found, there⟩ := spot_of_isFile file
  simp only [setExecutable, found, bind, Except.bind, there]
  exact ⟨_, rfl⟩

theorem readText_of_same {text : String} (read : d.readText p = .ok text) (file : made.isFile p = true)
    (same : made.files (made.place p) = d.files (d.place p)) : made.readText p = .ok text := by
  obtain ⟨data, found, decoded⟩ := readText_eq_ok read
  rw [readText_of_isFile file (same.trans found), decoded]

theorem copyFile_ok (sound : d.Sound) (file : d.isFile source = true)
    (apart : d.place source ≠ d.place target) {emptied : Disk}
    (emptying : d.writeFile target ByteArray.empty = .ok emptied) :
    ∃ made, d.copyFile source target = .ok made := by
  have becomes := writeFile_becomes sound emptying
  have keeps := (writeFile_sameFolders emptying).keeps
  obtain ⟨data, entry⟩ := isFile_iff_entry.mp file
  have read : d.readFile source = .ok data := readFile_iff_entry.mpr entry
  have stillThere : emptied.files (d.place source) = d.files (d.place source) := by
    rw [becomes.files, Function.update_of_ne apart]
  have reading := readFile_mono becomes.same keeps stillThere read
  obtain ⟨written, writing⟩ :=
    writeFile_of_isFile (isFile_of_readFile (readFile_writeFile sound emptying)) data.bytes
  have writtenFile := isFile_of_readFile (readFile_writeFile (becomes.sound sound) writing)
  obtain ⟨made, setting⟩ := setExecutable_of_isFile writtenFile data.executable
  refine ⟨made, ?_⟩
  simp only [copyFile, entry, bind, Except.bind, emptying, reading, writing, setting]

end Disk

end Cookbook
