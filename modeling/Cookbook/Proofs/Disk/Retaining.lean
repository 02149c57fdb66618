import Cookbook.Proofs.Disk.Passing
import Cookbook.Proofs.Disk.Transfer

/-!
What is kept of a disk: the files and folders at certain places. A path that passes only such places
leads to the same, and reads as the same.
-/

namespace Cookbook
namespace Disk

variable {d between made : Disk} {p : Path} {kept : Location → Prop} {count : Nat}

/-- That a disk has the same files and folders as another one at the places that are kept, and that at
most so many scratch folders were counted in between. -/
structure Retains (kept : Location → Prop) (count : Nat) (d made : Disk) : Prop where
  same : made = { d with root := made.root, scratchMade := made.scratchMade }
  root : made.root.Sound
  least : d.scratchMade ≤ made.scratchMade
  most : made.scratchMade ≤ d.scratchMade + count
  files : ∀ place, kept place → made.files place = d.files place
  folders : ∀ place, kept place → (made.root.HasFolder place ↔ d.root.HasFolder place)

namespace Retains

theorem refl (sound : d.Sound) : d.Retains kept 0 d :=
  ⟨rfl, sound.root, Nat.le_refl _, Nat.le_refl _, fun _ _ => rfl, fun _ _ => Iff.rfl⟩

theorem trans {further : Nat} (first : d.Retains kept count between)
    (second : between.Retains kept further made) : d.Retains kept (count + further) made := by
  refine ⟨?_, second.root, Nat.le_trans first.least second.least, ?_, ?_, ?_⟩
  · rw [second.same, first.same]
  · have mostFirst := first.most
    have mostSecond := second.most
    omega
  · intro place keeps
    rw [second.files place keeps, first.files place keeps]
  · intro place keeps
    rw [second.folders place keeps, first.folders place keeps]

theorem mono {kept' : Location → Prop} {count' : Nat} (retains : d.Retains kept count made)
    (fewer : ∀ place, kept' place → kept place) (more : count ≤ count') :
    d.Retains kept' count' made where
  same := retains.same
  root := retains.root
  least := retains.least
  most := Nat.le_trans retains.most (Nat.add_le_add_left more _)
  files place keeps := retains.files place (fewer place keeps)
  folders place keeps := retains.folders place (fewer place keeps)

theorem here (retains : d.Retains kept count made) : made.here = d.here := by rw [retains.same]

theorem sound (retains : d.Retains kept count made) (sound : d.Sound) : made.Sound :=
  ⟨retains.root, by rw [retains.here]; exact sound.here⟩

theorem place (retains : d.Retains kept count made) (p : Path) : made.place p = d.place p := by
  rw [Disk.place, retains.here, Disk.place]

theorem refuse? (retains : d.Retains kept count made) (p : Path) : made.refuse? p = d.refuse? p := by
  rw [retains.same]
  rfl

end Retains

/-! ## Reading -/

/-- That a path passes only places that are kept. -/
def Clear (d : Disk) (kept : Location → Prop) (p : Path) : Prop :=
  ∀ steps, steps <+: p.parts → kept (follow (if p.isAbsolute then [] else d.here) steps)

theorem Clear.keeps_place (clear : d.Clear kept p) : kept (d.place p) := clear p.parts List.prefix_rfl

theorem Clear.mono {kept' : Location → Prop} (clear : d.Clear kept p)
    (more : ∀ place, kept place → kept' place) : d.Clear kept' p :=
  fun steps starts => more _ (clear steps starts)

theorem Clear.congr (clear : d.Clear kept p) (here : made.here = d.here) : made.Clear kept p := by
  intro steps starts
  rw [here]
  exact clear steps starts

theorem Clear.joinName {name : String} (clear : d.Clear kept p) (single : '/' ∉ name.toList)
    (keeps : kept (d.place (p.joinName name))) : d.Clear kept (p.joinName name) := by
  have relative := Path.isRelative_name single
  intro steps starts
  by_cases whole : steps = (p.joinName name).parts
  · exact whole ▸ keeps
  rw [Path.joinName, Path.parts_join relative, Path.parts_name single] at starts whole
  rw [Path.joinName, Path.isAbsolute_join relative]
  refine clear steps ?_
  split at starts
  · next empty => simpa using starts
  · next some_ =>
      rw [if_neg some_] at whole
      exact (List.prefix_concat_iff.mp starts).resolve_left whole

theorem Clear.of_joinName {name : String} (clear : d.Clear kept (p.joinName name))
    (single : '/' ∉ name.toList) : d.Clear kept p := by
  have relative := Path.isRelative_name single
  intro steps starts
  have keeps := clear steps (by
    rw [Path.joinName, Path.parts_join relative]
    exact starts.trans (List.prefix_append _ _))
  rwa [Path.joinName, Path.isAbsolute_join relative] at keeps

theorem Leads.clear (leads : d.Leads p)
    (keeps : ∀ place, d.root.HasFolder place → kept place) : d.Clear kept p := by
  intro steps starts
  have there := walk_passes leads.way leads.folder starts
  rw [apply_ite List.reverse, List.reverse_nil, List.reverse_reverse] at there
  exact keeps _ there

/-- That a path passes only places that are kept, and that all below it is kept. -/
structure Safe (d : Disk) (kept : Location → Prop) (p : Path) : Prop where
  clear : d.Clear kept p
  below : ∀ rest, kept (d.place p ++ rest)

theorem Safe.mono {kept' : Location → Prop} (safe : d.Safe kept p)
    (more : ∀ place, kept place → kept' place) : d.Safe kept' p :=
  ⟨safe.clear.mono more, fun rest => more _ (safe.below rest)⟩

theorem Safe.congr (safe : d.Safe kept p) (here : made.here = d.here) : made.Safe kept p := by
  refine ⟨safe.clear.congr here, ?_⟩
  intro rest
  rw [Disk.place, here]
  exact safe.below rest

theorem Safe.apart {folder : Location} (safe : d.Safe kept p)
    (outside : ∀ place, kept place → ¬ folder <+: place) (rest : Location) :
    Apart (d.place p) (folder ++ rest) := by
  refine ⟨?_, ?_⟩
  · rintro ⟨other, same⟩
    exact outside _ (safe.below other) (same ▸ List.prefix_append _ _)
  · intro below
    refine outside _ (safe.below []) ?_
    rw [List.append_nil]
    exact (List.prefix_append _ _).trans below

theorem walk_congr {tree tree' : Tree} {above place : Location} {steps : List String}
    (same : ∀ front, front <+: steps →
      (tree'.HasFolder (follow above.reverse front) ↔ tree.HasFolder (follow above.reverse front))) :
    walk tree' above steps = .ok place ↔ walk tree above steps = .ok place :=
  ⟨fun found => walk_of_passed found fun front starts => (same front starts).mp,
    fun found => walk_of_passed found fun front starts => (same front starts).mpr⟩

theorem isFile_iff :
    d.isFile p = true ↔ d.refuse? p = none ∧ p.endsInSlash = false ∧
      walk d.root (if p.isAbsolute then [] else d.here.reverse) p.parts = .ok (d.place p) ∧
      d.files (d.place p) ≠ none ∧ ∀ name ∈ d.place p, name.utf8ByteSize ≤ nameLimit := by
  constructor
  · intro file
    obtain ⟨data, found⟩ := isFile_iff_entry.mp file
    obtain ⟨located, there, usable⟩ := entry_iff.mp found
    obtain ⟨accepted, way, slash⟩ := locate_iff.mp located
    refine ⟨accepted, ?_, way, ?_, usable⟩
    · rw [Bool.eq_false_iff]
      intro ends
      obtain ⟨content, inside⟩ := slash ends
      have folder := folderIn_eq_ok inside
      rw [there] at folder
      cases folder
    · rw [files, Tree.fileAt?_eq_some.mpr there]
      exact Option.some_ne_none data
  · rintro ⟨accepted, ends, way, there, usable⟩
    obtain ⟨data, found⟩ := Option.ne_none_iff_exists'.mp there
    have located : d.locate p = .ok (d.place p) := locate_iff.mpr ⟨accepted, way, by simp [ends]⟩
    exact isFile_iff_entry.mpr
      ⟨data, entry_iff.mpr ⟨located, Tree.fileAt?_eq_some.mp found, usable⟩⟩

theorem isFile_mono (same : made = { d with root := made.root }) (keeps : d.KeepsFolders made)
    (there : made.files (d.place p) ≠ none) (file : d.isFile p = true) : made.isFile p = true := by
  obtain ⟨accepted, ends, way, -, usable⟩ := isFile_iff.mp file
  have place : made.place p = d.place p := by
    rw [same]
    rfl
  have here : made.here = d.here := by rw [same]
  rw [isFile_iff, place, here]
  refine ⟨?_, ends, walk_mono way keeps, there, usable⟩
  rw [same]
  exact accepted

theorem readText_of_isFile {data : FileData} (file : d.isFile p = true)
    (found : d.files (d.place p) = some data) :
    d.readText p = match String.fromUTF8? data.bytes with
      | some text => .ok text
      | none => .error .notText := by
  obtain ⟨other, entry⟩ := isFile_iff_entry.mp file
  have here := Tree.fileAt?_eq_some.mpr (entry_eq_ok entry)
  rw [Disk.files, here] at found
  cases found
  rw [readText, readFile_iff_entry.mpr entry]
  rfl

theorem Leads.readText_joinName {name text : String} {data : FileData} (leads : d.Leads p)
    (proper : ProperName name) (accepted : d.refuse? (p.joinName name) = none)
    (short : name.utf8ByteSize ≤ nameLimit) (found : d.files (d.place p ++ [name]) = some data)
    (decoded : String.fromUTF8? data.bytes = some text) : d.readText (p.joinName name) = .ok text := by
  have file := isFile_joinName leads proper accepted short found
  rw [← place_joinName d p proper] at found
  rw [readText_of_isFile file found, decoded]

theorem createFolder_at? {place : Location}
    (created : d.createFolder p = .ok made) (apart : Apart place (d.place p)) :
    made.root.at? place = d.root.at? place := by
  obtain ⟨above, content, name, spot, -, rfl⟩ := createFolder_eq_ok created
  obtain ⟨there, -⟩ := spot_eq_ok spot
  rw [place_withoutLastSlash] at there
  rw [there] at apart
  exact Tree.at?_set_apart _ apart

namespace Retains

variable (retains : d.Retains kept count made) (clear : d.Clear kept p)
include retains clear

theorem walk_iff {place : Location} :
    walk made.root (if p.isAbsolute then [] else made.here.reverse) p.parts = .ok place ↔
      walk d.root (if p.isAbsolute then [] else d.here.reverse) p.parts = .ok place := by
  rw [retains.here]
  refine walk_congr fun front starts => ?_
  rw [apply_ite List.reverse, List.reverse_nil, List.reverse_reverse]
  exact retains.folders _ (clear front starts)

theorem leads_iff : made.Leads p ↔ d.Leads p := by
  have same := retains.place p
  constructor
  · rintro ⟨way, folder, usable⟩
    rw [same] at way folder usable
    exact ⟨(retains.walk_iff clear).mp way, (retains.folders _ clear.keeps_place).mp folder, usable⟩
  · rintro ⟨way, folder, usable⟩
    refine ⟨?_, ?_, ?_⟩
    · rw [same]
      exact (retains.walk_iff clear).mpr way
    · rw [same]
      exact (retains.folders _ clear.keeps_place).mpr folder
    · rw [same]
      exact usable

theorem isFolder : made.isFolder p = d.isFolder p := by
  rw [Bool.eq_iff_iff, isFolder_iff, isFolder_iff, retains.refuse?, retains.leads_iff clear]

theorem isFile : made.isFile p = d.isFile p := by
  rw [Bool.eq_iff_iff, isFile_iff, isFile_iff, retains.refuse?, retains.place,
    retains.files _ clear.keeps_place, retains.walk_iff clear]

theorem readText (file : d.isFile p = true) : made.readText p = d.readText p := by
  obtain ⟨data, found⟩ := Option.ne_none_iff_exists'.mp (isFile_iff.mp file).2.2.2.1
  have still : made.files (made.place p) = some data := by
    rw [retains.place, retains.files _ clear.keeps_place, found]
  rw [readText_of_isFile file found,
    readText_of_isFile ((retains.isFile clear).trans file) still]

end Retains

end Disk
end Cookbook
