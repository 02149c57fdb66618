import Cookbook.Proofs.Disk.Masks

/-!
Changes at single paths, which all come about in the same way: the place is looked up, it is decided
from what is there what is to be there, and that is put there. An edit below a name that is shown does
the same to a masked disk; one below a name that is masked does nothing to it.
-/

namespace Cookbook
namespace Disk

variable {d made : Disk} {p q : Path} {tree folder : Tree} {shown : String → Bool}
  {above base place rest : Location} {name : String}
  {become : Option (Option FileData) → Except DiskFault (Option Entry)}

/-- Replaces what is at a path. The decision is told whether something is there, and if so, which file,
if it is one. -/
def edit (d : Disk) (p : Path)
    (become : Option (Option FileData) → Except DiskFault (Option Entry)) : Except DiskFault Disk := do
  let (above, folder, name) ← d.spot p
  let new ← become ((folder.get? name).map Entry.file?)
  .ok { d with root := d.root.change (Tree.put name new) above }

theorem writeFile_eq_edit (d : Disk) (p : Path) (bytes : ByteArray) :
    d.writeFile p bytes = d.edit p fun
      | none => .ok (some (.file { bytes, executable := false }))
      | some none => .error .isAFolder
      | some (some data) => .ok (some (.file { data with bytes })) := by
  unfold writeFile edit
  cases d.spot p with
  | error fault => rfl
  | ok spot =>
      obtain ⟨above, folder, name⟩ := spot
      simp only [bind, Except.bind]
      cases folder.get? name with
      | none => rfl
      | some entry => cases entry <;> rfl

theorem setExecutable_eq_edit (d : Disk) (p : Path) (executable : Bool) :
    d.setExecutable p executable = d.edit p fun
      | none => .error .missing
      | some none => .error .isAFolder
      | some (some data) => .ok (some (.file { data with executable })) := by
  unfold setExecutable edit
  cases d.spot p with
  | error fault => rfl
  | ok spot =>
      obtain ⟨above, folder, name⟩ := spot
      simp only [bind, Except.bind]
      cases folder.get? name with
      | none => rfl
      | some entry => cases entry <;> rfl

theorem remove_eq_edit (d : Disk) (p : Path) :
    d.remove p = d.edit p fun
      | none => .error .missing
      | some _ => .ok none := by
  unfold remove edit
  cases d.spot p with
  | error fault => rfl
  | ok spot =>
      obtain ⟨above, folder, name⟩ := spot
      simp only [bind, Except.bind]
      cases folder.get? name <;> rfl

theorem createFolder_eq_edit (notTop : d.place p ≠ []) :
    d.createFolder p = d.edit p.withoutLastSlash fun
      | none => .ok (some (.folder .empty))
      | some _ => .error .alreadyThere := by
  unfold createFolder edit
  cases located : d.locate p.withoutLastSlash with
  | error fault =>
      unfold spot
      rw [located]
      rfl
  | ok place =>
      have here := locate_eq_ok located
      rw [place_withoutLastSlash] at here
      simp only [bind, Except.bind]
      split
      · next top => exact absurd (List.getLast?_eq_none_iff.mp top) (here ▸ notTop)
      · cases d.spot p.withoutLastSlash with
        | error fault => rfl
        | ok spot =>
            obtain ⟨above, folder, name⟩ := spot
            dsimp only
            cases folder.get? name <;> rfl

theorem edit_eq_ok (edited : d.edit p become = .ok made) :
    ∃ above name new, d.place p = above ++ [name] ∧
      made = { d with root := d.root.change (Tree.put name new) above } := by
  unfold edit at edited
  simp only [except_bind_eq_ok] at edited
  obtain ⟨⟨above, folder, name⟩, found, new, -, edited⟩ := edited
  cases edited
  exact ⟨above, name, new, (spot_eq_ok found).1, rfl⟩

/-! ## Edits of masked disks -/

theorem spot_masked (sees : d.Sees shown base p) :
    (d.masked shown base).spot p =
      (d.spot p).map fun (above, folder, name) => (above, folder.maskFrom shown base above, name) := by
  unfold spot
  rw [locate_masked sees]
  cases located : d.locate p with
  | error fault => rfl
  | ok place =>
      simp only [bind, Except.bind]
      cases last : place.getLast? with
      | none => rfl
      | some name =>
          obtain ⟨front, rfl⟩ := List.getLast?_eq_some_iff.mp last
          have visible := sees.visible
          rw [← locate_eq_ok located] at visible
          dsimp only
          rw [List.dropLast_concat, masked, folderIn_mask visible.of_append]
          cases folderIn d.root front with
          | error fault => rfl
          | ok folder =>
              simp only [Except.map]
              split <;> rfl

theorem get?_maskFrom (visible : Tree.Visible shown base (above ++ [name])) :
    ((folder.maskFrom shown base above).get? name).map Entry.file? =
      (folder.get? name).map Entry.file? := by
  rw [Tree.maskFrom]
  split
  · next starts =>
      obtain ⟨rest, rfl⟩ := starts
      rw [List.drop_left]
      cases rest with
      | nil =>
          rw [show folder.mask shown [] = folder.restrict shown from rfl, Tree.get?_restrict,
            if_pos (visible name [] (by simp))]
      | cons step rest =>
          rw [Tree.get?_mask_cons]
          split
          · cases folder.get? name <;> simp
          · rfl
  · rfl

theorem edit_masked (sees : d.Sees shown base p)
    (inside : ∀ made, d.edit p become = .ok made → ∃ name rest, d.place p = base ++ name :: rest) :
    (d.masked shown base).edit p become = (d.edit p become).map (·.masked shown base) := by
  unfold edit at inside ⊢
  rw [spot_masked sees]
  cases found : d.spot p with
  | error fault => rfl
  | ok spot =>
      obtain ⟨above, folder, name⟩ := spot
      obtain ⟨place, -⟩ := spot_eq_ok found
      simp only [found, bind, Except.bind, Except.map] at inside ⊢
      rw [get?_maskFrom (place ▸ sees.visible)]
      cases decided : become ((folder.get? name).map Entry.file?) with
      | error fault => rfl
      | ok new =>
          simp only [decided] at inside
          obtain ⟨other, rest, below⟩ := inside _ rfl
          have same : (d.root.change (Tree.put name new) above).mask shown base =
              (d.root.mask shown base).change (Tree.put name new) above :=
            Tree.mask_change (place ▸ below) (sees.visible other rest below)
          simp [masked, same]

theorem edit_hidden (below : d.place p = base ++ name :: rest) (hidden : shown name = false)
    (edited : d.edit p become = .ok made) : made.masked shown base = d.masked shown base := by
  obtain ⟨above, last, new, place, rfl⟩ := edit_eq_ok edited
  have same : (d.root.change (Tree.put last new) above).mask shown base = d.root.mask shown base :=
    Tree.mask_change_hidden (place ▸ below) hidden
  simp [masked, same]

/-! ## Operations below a name -/

theorem Sees.congr (sees : d.Sees shown base p) (here : made.here = d.here)
    (absolute : q.isAbsolute = p.isAbsolute) (parts : q.parts <+: p.parts) : made.Sees shown base q := by
  intro steps starts
  rw [absolute, here]
  exact sees steps (starts.trans parts)

/-- That a path leads below one name of a folder, past nothing that is below another. -/
structure Owns (d : Disk) (base : Location) (name : String) (p : Path) : Prop where
  sees : ∀ shown, shown name = true → d.Sees shown base p
  place : ∃ rest, d.place p = base ++ name :: rest

/-- That an operation acts only below one name of a folder, and whatever is below others. -/
structure Local (d : Disk) (base : Location) (name : String) (f : Disk → Except DiskFault Disk) :
    Prop where
  own : ∀ shown, shown name = true →
    f (d.masked shown base) = (f d).map (·.masked shown base)
  others : ∀ shown, shown name = false → ∀ made, f d = .ok made →
    made.masked shown base = d.masked shown base

theorem Owns.congr (owns : d.Owns base name p) (here : made.here = d.here) : made.Owns base name p where
  sees shown seen := (owns.sees shown seen).congr here rfl List.prefix_rfl
  place := place_congr here p ▸ owns.place

theorem edit_local (owns : d.Owns base name p) : d.Local base name (·.edit p become) where
  own shown seen := edit_masked (owns.sees shown seen) fun _ _ => ⟨name, owns.place⟩
  others shown hidden made edited := by
    obtain ⟨rest, below⟩ := owns.place
    exact edit_hidden below hidden edited

theorem edit_here (edited : d.edit p become = .ok made) : made.here = d.here := by
  obtain ⟨above, last, new, -, rfl⟩ := edit_eq_ok edited
  rfl

theorem writeFile_local (owns : d.Owns base name p) (bytes : ByteArray) :
    d.Local base name (·.writeFile p bytes) := by
  simp only [writeFile_eq_edit]
  exact edit_local owns

theorem setExecutable_local (owns : d.Owns base name p) (executable : Bool) :
    d.Local base name (·.setExecutable p executable) := by
  simp only [setExecutable_eq_edit]
  exact edit_local owns

theorem remove_local (owns : d.Owns base name p) : d.Local base name (·.remove p) := by
  simp only [remove_eq_edit]
  exact edit_local owns

theorem writeFile_here {bytes : ByteArray} (written : d.writeFile p bytes = .ok made) :
    made.here = d.here := by
  rw [writeFile_eq_edit] at written
  exact edit_here written

theorem copyFile_local {source target : Path}
    (sees : ∀ shown, shown name = true → d.Sees shown base source)
    (owns : d.Owns base name target) : d.Local base name (·.copyFile source target) where
  own shown seen := by
    unfold copyFile
    rw [entry_masked (sees shown seen)]
    cases d.entry source with
    | error fault => rfl
    | ok entry =>
        cases entry with
        | folder content => rfl
        | file data =>
            simp only [Except.map, Entry.maskFrom, bind, Except.bind]
            rw [(writeFile_local owns _).own shown seen]
            -- The source is read after the target was emptied, so it is seen on the changed disk.
            cases emptying : d.writeFile target ByteArray.empty with
            | error fault => rfl
            | ok emptied =>
                have here := writeFile_here emptying
                simp only [Except.map]
                rw [readFile_masked ((sees shown seen).congr here rfl List.prefix_rfl)]
                cases emptied.readFile source with
                | error fault => rfl
                | ok read =>
                    simp only
                    rw [(writeFile_local (owns.congr here) _).own shown seen]
                    cases writing : emptied.writeFile target read.bytes with
                    | error fault => rfl
                    | ok written =>
                        have owns := (owns.congr here).congr (writeFile_here writing)
                        exact (setExecutable_local owns _).own shown seen
  others shown hidden made copied := by
    obtain ⟨data, emptied, read, written, -, emptying, -, writing, setting⟩ := copyFile_eq_ok copied
    have ownsEmptied := owns.congr (writeFile_here emptying)
    have ownsWritten := ownsEmptied.congr (writeFile_here writing)
    rw [(setExecutable_local ownsWritten _).others shown hidden made setting,
      (writeFile_local ownsEmptied _).others shown hidden written writing,
      (writeFile_local owns _).others shown hidden emptied emptying]

/-! ## Making folders below a name -/

/-- That a path leads below one name of a folder, or to a folder that is there, past nothing that is
below another name. -/
structure Reaches (d : Disk) (base : Location) (name : String) (p : Path) : Prop where
  sees : ∀ shown, shown name = true → d.Sees shown base p
  place : (∃ rest, d.place p = base ++ name :: rest) ∨ d.root.HasFolder (d.place p)

theorem Reaches.mono (reaches : d.Reaches base name p) (here : made.here = d.here)
    (keeps : d.KeepsFolders made) : made.Reaches base name p where
  sees shown seen := (reaches.sees shown seen).congr here rfl List.prefix_rfl
  place := by
    rw [place_congr here]
    exact reaches.place.imp_right (keeps _)

theorem createFolder_local (reaches : d.Reaches base name p) :
    d.Local base name (·.createFolder p) := by
  have below {made : Disk} (created : d.createFolder p = .ok made) :
      ∃ rest, d.place p = base ++ name :: rest :=
    reaches.place.resolve_right fun there => createFolder_ne_ok (.inl there) created
  have sees (shown : String → Bool) (seen : shown name = true) :
      d.Sees shown base p.withoutLastSlash :=
    (reaches.sees shown seen).congr rfl p.isAbsolute_withoutLastSlash
      (p.parts_withoutLastSlash ▸ List.prefix_rfl)
  constructor
  · intro shown seen
    -- The top is not an entry of any folder, and can only fail to be made.
    by_cases top : d.place p = []
    · unfold createFolder
      rw [locate_masked (sees shown seen)]
      cases located : d.locate p.withoutLastSlash with
      | error fault => rfl
      | ok place =>
          have here := locate_eq_ok located
          rw [place_withoutLastSlash, top] at here
          subst here
          rfl
    · have same : (d.masked shown base).place p ≠ [] := top
      show (d.masked shown base).createFolder p = _
      rw [createFolder_eq_edit same]
      rw [createFolder_eq_edit top] at below ⊢
      refine edit_masked (sees shown seen) fun made edited => ⟨name, ?_⟩
      rw [place_withoutLastSlash]
      exact below edited
  · intro shown hidden made created
    obtain ⟨rest, place⟩ := below created
    have notTop : d.place p ≠ [] := by simp [place]
    rw [createFolder_eq_edit notTop] at created
    exact edit_hidden (by rwa [place_withoutLastSlash]) hidden created

theorem createChain_masked (sound : d.Sound) {paths : List Path}
    (reach : ∀ q ∈ paths, d.Reaches base name q) (seen : shown name = true) :
    (d.masked shown base).createChain paths =
      ((d.createChain paths).1.masked shown base, (d.createChain paths).2) := by
  induction paths with
  | nil => rfl
  | cons p above ih =>
      obtain ⟨reaches, rest⟩ := List.forall_mem_cons.mp reach
      have keeps := d.createChain_keepsFolders above
      have becomes := createChain_becomes sound above
      rw [createChain, createChain, (createFolder_local reaches).own shown seen, ih rest,
        isFolder_masked (reaches.sees shown seen)]
      split
      · rfl
      · cases d.createFolder p with
        | ok made => rfl
        | error fault =>
            cases fault with
            | missing =>
                cases chain : d.createChain above with
                | mk between outcome =>
                    rw [chain] at keeps becomes
                    have here : between.here = d.here := becomes.here
                    have further := reaches.mono here keeps
                    cases outcome with
                    | error fault => rfl
                    | ok _ =>
                        simp only [Except.map]
                        rw [(createFolder_local further).own shown seen,
                          isFolder_masked (further.sees shown seen)]
                        cases between.createFolder p <;> rfl
            | _ => rfl

theorem createChain_hidden (sound : d.Sound) {paths : List Path}
    (reach : ∀ q ∈ paths, d.Reaches base name q) (hidden : shown name = false) :
    (d.createChain paths).1.masked shown base = d.masked shown base := by
  induction paths with
  | nil => rfl
  | cons p above ih =>
      obtain ⟨reaches, rest⟩ := List.forall_mem_cons.mp reach
      have keeps := d.createChain_keepsFolders above
      have becomes := createChain_becomes sound above
      have ih := ih rest
      rw [createChain]
      split
      · rfl
      · split
        · next created => exact (createFolder_local reaches).others shown hidden _ created
        · split
          · next chain => rwa [chain] at ih
          · next between chain =>
              rw [chain] at ih keeps becomes
              have here : between.here = d.here := becomes.here
              split
              · next created =>
                  rw [(createFolder_local (reaches.mono here keeps)).others shown hidden _ created]
                  exact ih
              · exact ih
        · rfl

section CreateFolders

variable (shown : String → Bool) (sound : d.Sound) (reaches : d.Reaches base name p)
  (reach : ∀ q ∈ p.above, d.Reaches base name q)

include sound reaches reach

theorem createFolders_masked (seen : shown name = true) :
    (d.masked shown base).createFolders p =
      ((d.createFolders p).1.masked shown base, (d.createFolders p).2) := by
  unfold createFolders
  rw [(createFolder_local reaches).own shown seen, isFolder_masked (reaches.sees shown seen),
    createChain_masked sound (List.forall_mem_cons.mpr ⟨reaches, reach⟩) seen]
  cases d.createFolder p with
  | ok made => rfl
  | error fault => cases fault <;> rfl

theorem createFolders_hidden (hidden : shown name = false) :
    (d.createFolders p).1.masked shown base = d.masked shown base := by
  unfold createFolders
  split
  · next created => exact (createFolder_local reaches).others shown hidden _ created
  · exact createChain_hidden sound (List.forall_mem_cons.mpr ⟨reaches, reach⟩) hidden
  · rfl

end CreateFolders

end Disk
end Cookbook
