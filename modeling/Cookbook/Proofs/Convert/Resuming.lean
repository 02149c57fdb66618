import Cookbook.Proofs.Convert.Finishing
import Cookbook.Proofs.Convert.Layout
import Cookbook.Proofs.Disk.Succeeding

/-!
Copying resumed. A session can copy what another one has copied, if it finds the same in the source and
nothing in the target that the other one has not left there in the end.
-/

namespace Cookbook

open Action

namespace Disk

variable {d made final : Disk} {name : String} {place : Location}

/-- That a disk has a folder wherever another one has, and a file likewise. -/
structure Fits (d final : Disk) : Prop where
  folders : d.KeepsFolders final
  files : ∀ place, d.files place ≠ none → final.files place ≠ none

theorem Fits.noFile (fits : d.Fits final) (folder : final.root.HasFolder place) :
    d.files place = none := by
  by_contra there
  exact fits.files place there (files_of_hasFolder folder)

theorem Fits.noFolder (fits : d.Fits final) (file : final.files place ≠ none) :
    ¬ d.root.HasFolder place :=
  fun there => file (files_of_hasFolder (fits.folders place there))

theorem Fits.changesFile (fits : d.Fits final) (changes : ChangesFile place d made)
    (there : final.files place ≠ none) : made.Fits final := by
  refine ⟨fun other folder => fits.folders other (changes.folders.iff.mp folder), ?_⟩
  intro other file
  by_cases same : other = place
  · exact same ▸ there
  · exact fits.files other (by rwa [← changes.others other same])

/-- That another disk has something below a target wherever this one has something below a source that
is taken over. -/
structure Covers (routed : Location → Prop) (keep : String → Bool) (source target : Location)
    (d final : Disk) : Prop where
  files : ∀ rest, routed rest → d.files (source ++ rest) ≠ none → final.files (target ++ rest) ≠ none
  folders : ∀ rest, rest.all keep = true → d.root.HasFolder (source ++ rest) →
    final.root.HasFolder (target ++ rest)

theorem Covers.down {routed : Location → Prop} {keep : String → Bool} {above below : Location}
    (covers : Covers routed keep above below d final)
    (onward : ∀ rest, routed rest → routed (name :: rest))
    (kept : keep name = true) : Covers routed keep (above ++ [name]) (below ++ [name]) d final := by
  refine ⟨?_, ?_⟩
  · intro rest taken there
    rw [List.append_assoc] at there ⊢
    exact covers.files (name :: rest) (onward rest taken) there
  · intro rest taken there
    rw [List.append_assoc] at there ⊢
    exact covers.folders (name :: rest) (by rw [List.all_cons, kept, taken, Bool.true_and]) there

end Disk

/-! ## Staying inside of a folder -/

/-- That a session is another one but for what is at and below a folder, and new folders on the way
there. -/
def Inward (folder : Path) (session after : Session) : Prop :=
  Confined folder false session after ∧ Growing folder session after

instance (folder : Path) : IsPreorder Session (Inward folder) where
  refl session := ⟨refl_of (Confined folder false) session, refl_of (Growing folder) session⟩
  trans _ _ _ first second :=
    ⟨trans_of (Confined folder false) first.1 second.1, trans_of (Growing folder) first.2 second.2⟩

theorem Path.Inside.below {p folder : Path} (inside : p.Inside folder) : p.Below folder := by
  obtain ⟨rest, parts, proper⟩ := inside.parts
  intro d
  rw [Disk.place, Disk.place, inside.absolute, parts, follow_append, follow_names proper]
  exact List.prefix_append _ _

theorem inward_permits (folder : Path) : Permits (Inward folder) (·.Inside folder) false :=
  have confined := confined_permits folder false
  have growing := growing_permits folder false
  { unsound unsound := ⟨confined.unsound unsound, growing.unsound unsound⟩
    join inside := inside.join
    changesFile inside sound changes :=
      ⟨confined.changesFile inside.below sound changes, growing.changesFile inside sound changes⟩
    createFolders inside sound :=
      ⟨confined.createFolders inside.below sound, growing.createFolders inside sound⟩
    remove allowed := nomatch allowed }

variable {routed : Location → Prop} {keep : String → Bool} {source target : Path} {final : Disk}
  {first last second before later now after ended : Session} {plan : Plan} {name : String}

theorem Inward.keepsSource (inward : Inward target first last) (sound : first.disk.Sound)
    (apart : Apart (first.disk.place source) (first.disk.place target))
    (avoids : first.disk.Avoids source target) :
    first.disk.SameIn last.disk (first.disk.place source) := by
  intro rest
  have changes := inward.1 sound
  have outside := apart.notBelow rest
  refine ⟨changes.outside _ outside, ?_, changes.keepsFolders _⟩
  intro there
  obtain earlier | passes | below := (inward.2 sound).folders _ there
  · exact earlier
  · exact avoids _ passes (List.prefix_append _ _)
  · exact absurd below outside

/-- That a second session can copy what a first one copies from a folder to another: it finds the same
there, and all that it holds is also on the disk that the first one leaves in the end. -/
structure Resumes (routed : Location → Prop) (keep : String → Bool) (source target : Path)
    (final : Disk) (first second : Session) : Prop where
  same : second.disk = { first.disk with root := second.disk.root }
  sound : first.disk.Sound
  root : second.disk.root.Sound
  apart : Apart (first.disk.place source) (first.disk.place target)
  avoids : first.disk.Avoids source target
  leads : second.disk.Leads source
  still : first.disk.SameIn second.disk (first.disk.place source)
  covers : first.disk.Covers routed keep (first.disk.place source) (first.disk.place target) final
  fits : second.disk.Fits final

namespace Resumes

theorem place (resumes : Resumes routed keep source target final first second) (p : Path) :
    second.disk.place p = first.disk.place p := by
  rw [resumes.same]
  rfl

theorem refuse? (resumes : Resumes routed keep source target final first second) (p : Path) :
    second.disk.refuse? p = first.disk.refuse? p := by
  rw [resumes.same]
  rfl

theorem passes (resumes : Resumes routed keep source target final first second) (p : Path)
    (place : Location) : second.disk.Passes p place ↔ first.disk.Passes p place := by
  rw [resumes.same]
  rfl

theorem secondSound (resumes : Resumes routed keep source target final first second) :
    second.disk.Sound := by
  refine ⟨resumes.root, ?_⟩
  rw [resumes.same]
  exact resumes.sound.here

theorem earlier (resumes : Resumes routed keep source target final first second)
    (inward : Inward target first before) :
    Resumes routed keep source target final before second := by
  have changes := inward.1 resumes.sound
  have becomes := changes.becomes
  have kept := inward.keepsSource resumes.sound resumes.apart resumes.avoids
  have place := becomes.place
  refine ⟨?_, becomes.sound resumes.sound, resumes.root, ?_, ?_, resumes.leads, ?_, ?_,
    resumes.fits⟩
  · rw [resumes.same, becomes.same]
  · rw [place, place]
    exact resumes.apart
  · intro passed passes below
    rw [place] at below
    exact changes.keepsFolders _ (resumes.avoids passed (becomes.passes.mp passes) below)
  · rw [place]
    exact kept.symm.trans resumes.still
  · refine ⟨?_, ?_⟩
    · intro rest taken there
      rw [place, (kept rest).1] at there
      exact place target ▸ resumes.covers.files rest taken there
    · intro rest taken there
      rw [place, (kept rest).2] at there
      exact place target ▸ resumes.covers.folders rest taken there

theorem onward (resumes : Resumes routed keep source target final first second)
    (inward : Inward target second now) (fits : now.disk.Fits final) :
    Resumes routed keep source target final first now := by
  have sound := resumes.secondSound
  have changes := inward.1 sound
  have becomes := changes.becomes
  have avoids : second.disk.Avoids source target := by
    intro passed passes below
    obtain ⟨rest, rfl⟩ := below
    rw [resumes.place] at passes ⊢
    rw [(resumes.still rest).2]
    exact resumes.avoids _ ((resumes.passes _ _).mp passes) (List.prefix_append _ _)
  have apart : Apart (second.disk.place source) (second.disk.place target) := by
    rw [resumes.place, resumes.place]
    exact resumes.apart
  have kept := inward.keepsSource sound apart avoids
  simp only [resumes.place] at kept
  refine ⟨?_, resumes.sound, becomes.root, resumes.apart, resumes.avoids,
    resumes.leads.mono becomes.same changes.keepsFolders, resumes.still.trans kept,
    resumes.covers, fits⟩
  rw [becomes.same, resumes.same]

theorem down (resumes : Resumes routed keep source target final first second)
    (proper : ProperName name) (short : name.utf8ByteSize ≤ Disk.nameLimit)
    (onward : ∀ rest, routed rest → routed (name :: rest)) (kept : keep name = true)
    (folder : first.disk.root.HasFolder (first.disk.place source ++ [name])) :
    Resumes routed keep (source.joinName name) (target.joinName name) final first second := by
  have sourcePlace := Disk.place_joinName first.disk source proper
  have targetPlace := Disk.place_joinName first.disk target proper
  have inside : Apart (first.disk.place source ++ [name]) (first.disk.place target ++ [name]) :=
    resumes.apart.append [name] [name]
  refine ⟨resumes.same, resumes.sound, resumes.root, ?_, ?_, ?_, ?_, ?_, resumes.fits⟩
  · rwa [sourcePlace, targetPlace]
  · intro passed passes below
    rw [sourcePlace] at below
    obtain passes | rfl := (Disk.passes_joinName proper).mp passes
    · exact resumes.avoids passed passes ((List.prefix_append _ _).trans below)
    · exact absurd below inside.above
  · refine resumes.leads.joinName proper ?_ short
    rwa [resumes.place, (resumes.still _).2]
  · rw [sourcePlace]
    exact resumes.still.below [name]
  · rw [sourcePlace, targetPlace]
    exact resumes.covers.down onward kept

theorem isFile_joinName (resumes : Resumes routed keep source target final first second)
    (proper : ProperName name) (file : first.disk.isFile (source.joinName name) = true) :
    second.disk.isFile (source.joinName name) = true := by
  obtain ⟨accepted, -, -, there, usable⟩ := Disk.isFile_iff.mp file
  rw [Disk.place_joinName _ _ proper] at there usable
  obtain ⟨data, found⟩ := Option.ne_none_iff_exists'.mp there
  have still : second.disk.files (second.disk.place source ++ [name]) = some data := by
    rw [resumes.place, (resumes.still _).1, found]
  refine Disk.isFile_joinName resumes.leads proper ?_ (usable name (by simp)) still
  rw [resumes.refuse?, accepted]

theorem writable (resumes : Resumes routed keep source target final first second)
    (leads : second.disk.Leads target) (proper : ProperName name)
    (there : final.files (first.disk.place target ++ [name]) ≠ none) {bytes : ByteArray} {disk : Disk}
    (written : first.disk.writeFile (target.joinName name) bytes = .ok disk) (bytes' : ByteArray) :
    ∃ made, second.disk.writeFile (target.joinName name) bytes' = .ok made := by
  have admits := Disk.admits_of_writeFile proper written
  refine (Disk.writeFile_ok_iff proper bytes').mpr ⟨?_, leads, admits.short, ?_⟩
  · rw [resumes.refuse?, admits.accepted]
  · rw [resumes.place]
    exact resumes.fits.noFolder there

end Resumes

end Cookbook
