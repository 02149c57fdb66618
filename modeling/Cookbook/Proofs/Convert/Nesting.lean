import Cookbook.Proofs.Convert.Layout

/-!
Targets inside of the folder that is copied. What a folder holds is listed before its target is made, so
that copying a recipe into a new folder of its own is copying it as it was, as long as nothing is made
or written in the folders that it holds.
-/

namespace Cookbook

open Action

variable {session after : Session} {plan : Plan} {source target : Path}

namespace Disk

variable {d : Disk}

/-- That a target is neither above the source nor in a folder that the source holds, and that making the
target makes nothing there. The target may be inside of the source itself. -/
structure Evades (d : Disk) (source target : Path) : Prop where
  notAbove : ¬ d.place target <+: d.place source
  outside : ∀ name, d.root.HasFolder (d.place source ++ [name]) →
    ¬ d.place source ++ [name] <+: d.place target
  avoids : ∀ name, d.root.HasFolder (d.place source ++ [name]) → ∀ place, d.Passes target place →
    d.place source ++ [name] <+: place → d.root.HasFolder place

namespace Evades

theorem of_apart (apart : Apart (d.place source) (d.place target)) (avoids : d.Avoids source target) :
    d.Evades source target where
  notAbove := apart.below
  outside name _ := (apart.entry name).above
  avoids _ _ place passes below := avoids place passes ((List.prefix_append _ _).trans below)

theorem congr {other : Path} (evades : d.Evades source target)
    (place : d.place other = d.place target)
    (passes : ∀ place, d.Passes other place → d.Passes target place) : d.Evades source other where
  notAbove := place ▸ evades.notAbove
  outside name folder := place ▸ evades.outside name folder
  avoids name folder there passed := evades.avoids name folder there (passes there passed)

theorem notEntry (evades : d.Evades source target) {name : String}
    (other : d.place target ≠ d.place source ++ [name]) :
    ¬ d.place target <+: d.place source ++ [name] := by
  rw [List.prefix_concat_iff]
  rintro (same | above)
  · exact other same
  · exact evades.notAbove above

theorem apart (evades : d.Evades source target) {name : String}
    (folder : d.root.HasFolder (d.place source ++ [name])) :
    Apart (d.place source ++ [name]) (d.place target) := by
  have outside := evades.outside name folder
  exact ⟨outside, evades.notEntry fun same => outside (same ▸ List.prefix_rfl)⟩

end Evades

theorem Evades.entry {made : Disk} (evades : d.Evades source target) (sound : d.Sound)
    (created : d.createFolders target = (made, .ok ())) (there : made.root.HasFolder (d.place target))
    {name : String} (held : d.root.at? (d.place source ++ [name]) ≠ none) :
    Apart (d.place source ++ [name]) (d.place target) ∧
      ∀ place, d.Passes target place → d.place source ++ [name] <+: place →
        d.root.HasFolder place := by
  have becomes := createFolders_becomes sound target
  rw [created] at becomes
  obtain ⟨entry, found⟩ := Option.ne_none_iff_exists'.mp held
  cases entry with
  | folder content => exact ⟨evades.apart ⟨content, found⟩, evades.avoids name ⟨content, found⟩⟩
  | file data =>
      -- A file stays one, and so no folder comes to be there or below it.
      have noFolder {place : Location} (below : d.place source ++ [name] <+: place) :
          ¬ made.root.HasFolder place := by
        intro folder
        obtain ⟨rest, rfl⟩ := below
        have file := files_of_hasFolder folder.of_append
        rw [becomes.files, files, Tree.fileAt?_eq_some.mpr found] at file
        cases file
      refine ⟨⟨fun below => noFolder below there, evades.notEntry ?_⟩, ?_⟩
      · intro same
        exact noFolder (same ▸ List.prefix_rfl) there
      · intro place passes below
        exact absurd (createFolders_opens created place (becomes.passes.mpr passes)) (noFolder below)

end Disk

namespace Copy

variable {destination : Path}

theorem hasFolder_created {made : Disk} (stands : session.disk.root.HasFolder session.disk.here)
    (created : session.disk.createFolders target = (made, .ok ())) (sound : session.disk.Sound) :
    made.root.HasFolder (session.disk.place target) := by
  have becomes := Disk.createFolders_becomes sound target
  have keeps := session.disk.createFolders_keepsFolders target
  rw [created] at becomes keeps
  obtain empty | ⟨leads, -⟩ := Disk.createFolders_leads created
  · have start : session.disk.place target = session.disk.here := by
      rw [show target = ⟨""⟩ from congrArg Path.mk empty, Disk.place, Path.parts_empty,
        Path.isAbsolute_empty]
      rfl
    exact start ▸ keeps _ stands
  · exact becomes.place target ▸ leads.folder

theorem evades_rootTarget {d : Disk} (evades : d.Evades source destination) :
    d.Evades source (rootTarget destination) :=
  evades.congr (place_rootTarget d destination) fun _ => (passes_rootTarget destination).mp

theorem recipe_evading (stands : session.disk.root.HasFolder session.disk.here)
    (sound : session.disk.Sound) (evades : session.disk.Evades source destination)
    (run : (recipe plan source destination).run session = .ok () after) :
    session.disk.Becomes after.disk
        (transfer plan.fate (session.disk.place source) (session.disk.place destination)
          session.disk.files) ∧
      session.disk.Lays after.disk keepsFolder source destination := by
  obtain ⟨-, made, created⟩ := recipe_creates run
  have rootEvades := evades_rootTarget evades
  have there := hasFolder_created stands created sound
  have entry {name : String}
      (held : session.disk.root.at? (session.disk.place source ++ [name]) ≠ none) :=
    rootEvades.entry sound created there held
  rw [recipe_run] at run
  have becomes := recipeFolder_becomes sound (fun _ held => (entry held).1) run
  have lays := recipeFolder_lays sound (fun _ held => (entry held).1)
    (fun _ held => (entry held).2) run
  rw [place_rootTarget] at becomes
  exact ⟨becomes, (lays_rootTarget destination).mp lays⟩

end Copy

end Cookbook
