import Cookbook.Proofs.Convert.Layout
import Cookbook.Proofs.Disk.Succeeding

/-!
The paths of what was copied. A copy that succeeds has written to the target of each file, so these
targets have paths that can be used.
-/

namespace Cookbook

open Action

variable {source target : Path} {session after : Session}

theorem forM_step {α : Type} {relation : Session → Session → Prop} [IsPreorder Session relation]
    {items : List α} {f : α → Action Unit} {item : α}
    (each : ∀ item ∈ items, Keeps relation (f item)) (member : item ∈ items)
    (run : (items.forM f).run session = .ok () after) :
    ∃ before later, relation session before ∧ (f item).run before = .ok () later := by
  induction items generalizing session with
  | nil => cases member
  | cons first items ih =>
      obtain ⟨between, step, rest⟩ := forM_cons_eq_ok.mp run
      obtain ⟨once, others⟩ := List.forall_mem_cons.mp each
      obtain rfl | member := List.mem_cons.mp member
      · exact ⟨session, between, refl_of relation session, step⟩
      · obtain ⟨before, later, further, ran⟩ := ih others member rest
        exact ⟨before, later, trans_of relation (once.ok step) further, ran⟩

namespace Disk

variable {d made : Disk} {p : Path}

end Disk

namespace Copy

variable {plan : Plan} {name : String} {names : List String}

theorem rootTarget_joinName {destination : Path} (nonempty : destination.text ≠ "")
    (proper : ProperName name) : (rootTarget destination).joinName name = destination.joinName name := by
  have relative := Path.isRelative_of_proper proper
  have some_ := text_rootTarget_ne_empty nonempty
  have ends : (rootTarget destination).endsInSlash = true := by
    unfold rootTarget Path.joinName Path.join
    rw [if_neg (by simp [Path.isAbsolute_empty]), if_neg nonempty]
    split
    · next ends => simpa using ends
    · rw [Path.endsInSlash_iff]
      simp
  rw [Path.joinName, Path.join, if_neg (by simp [relative]), if_neg some_, if_pos ends, Path.joinName,
    Path.join, if_neg (by simp [relative]), if_neg nonempty]
  unfold rootTarget Path.joinName Path.join
  rw [if_neg (by simp [Path.isAbsolute_empty]), if_neg nonempty]
  split <;> simp

theorem copyFile_admits (proper : ProperName name)
    (run : (copyFile source (target.joinName name)).run session = .ok () after) :
    session.disk.Admits target name := by
  obtain ⟨disk, copied, -⟩ := change_eq_ok.mp run
  obtain ⟨_, _, _, _, -, emptying, -⟩ := Disk.copyFile_eq_ok copied
  exact Disk.admits_of_writeFile proper emptying

theorem recipeFile_admits (proper : ProperName name) (kept : Route.ofName name ≠ .skip)
    (run : (recipeFile plan name source (target.joinName name)).run session = .ok () after) :
    session.disk.Admits target name := by
  unfold recipeFile at run
  split at run
  · next skipped => exact absurd skipped kept
  · obtain ⟨text, disk, -, written, -⟩ := fillFile_eq_ok.mp run
    exact Disk.admits_of_writeFile proper written
  · exact copyFile_admits proper run

theorem recipe_admits {destination : Path} (sound : session.disk.Sound) (proper : ProperName name)
    (nonempty : destination.text ≠ "")
    (taken : Route.ofName name ≠ .skip ∧
        session.disk.files (session.disk.place source ++ [name]) ≠ none ∨
      keepsFolder name = true ∧ session.disk.root.HasFolder (session.disk.place source ++ [name]))
    (run : (recipe plan source destination).run session = .ok () after) :
    session.disk.Admits destination name := by
  rw [recipe_run] at run
  obtain ⟨depth, tree, begun, -, list, creating, filling⟩ := recipeFolder_eq_ok.mp run
  have created := createFolders_becomes sound creating
  have names := (Disk.lists_of_list sound list).proper
  obtain ⟨wanted, found, taken⟩ : ∃ entry : Entry,
      session.disk.Finds (session.disk.place source ++ [name]) entry ∧
      if entry.isFolder then keepsFolder name = true else Route.ofName name ≠ .skip := by
    obtain ⟨kept, file⟩ | ⟨kept, folder⟩ := taken
    · exact ⟨.file ⟨.empty, false⟩, file, kept⟩
    · exact ⟨.folder .empty, folder, kept⟩
  obtain ⟨entry, member, same⟩ := found.listed sound list
  obtain ⟨before, later, confined, step⟩ := forM_step
    (fun entry member => (confined_permits (rootTarget destination) false).recipeEntry (.refl _)
      (names _ (Tree.mem_inOrder.mp member)))
    (Tree.mem_inOrder.mpr member) filling
  have changes := confined (created.sound sound)
  have beforeSound := changes.becomes.sound (created.sound sound)
  refine (created.trans changes.becomes).admits.mp ?_
  simp only [recipeEntry] at step
  rw [same, rootTarget_joinName nonempty proper] at step
  cases wanted with
  | file data => exact recipeFile_admits proper taken step
  | folder content =>
      simp only [Entry.isFolder, if_true] at step taken
      rw [if_neg (by simpa [keepsFolder] using taken)] at step
      have inside := confined_permits (destination.joinName name) false
      have further := (inside.recipeFolder (.refl _) depth).ok step beforeSound
      exact further.becomes.admits.mp
        (Disk.admits_of_leads proper (recipeFolder_leads beforeSound step))

/-- The targets of a recipe's files that are directly in its folder have usable paths. -/
theorem recipe_accepts {destination : Path} (sound : session.disk.Sound) (proper : ProperName name)
    (nonempty : destination.text ≠ "") (kept : Route.ofName name ≠ .skip)
    (file : session.disk.files (session.disk.place source ++ [name]) ≠ none)
    (run : (recipe plan source destination).run session = .ok () after) :
    session.disk.refuse? (destination.joinName name) = none :=
  (recipe_admits sound proper nonempty (.inl ⟨kept, file⟩) run).accepted

theorem recipe_accepts_rootTarget {destination : Path} (sound : session.disk.Sound)
    (proper : ProperName name) (nonempty : destination.text ≠ "") (kept : Route.ofName name ≠ .skip)
    (file : session.disk.files (session.disk.place source ++ [name]) ≠ none)
    (run : (recipe plan source destination).run session = .ok () after) :
    session.disk.refuse? (rootTarget destination) = none := by
  have accepted := recipe_accepts sound proper nonempty kept file run
  rw [← rootTarget_joinName nonempty proper] at accepted
  obtain ⟨rest, longer⟩ := Path.text_join (p := rootTarget destination) (Path.isRelative_of_proper proper)
  exact Disk.refuse?_front longer (text_rootTarget_ne_empty nonempty) accepted

theorem whole_admits {destination : Path} (sound : session.disk.Sound) (proper : ProperName name)
    (nonempty : destination.text ≠ "")
    (taken : session.disk.files (session.disk.place source ++ [name]) ≠ none ∨
      session.disk.root.HasFolder (session.disk.place source ++ [name]))
    (run : (whole source destination).run session = .ok () after) :
    session.disk.Admits destination name := by
  rw [whole_run] at run
  obtain ⟨depth, begun, tree, -, creating, list, filling⟩ := wholeFolder_eq_ok.mp run
  have created := createFolders_becomes sound creating
  have begunSound := created.sound sound
  have names := (Disk.lists_of_list begunSound list).proper
  obtain ⟨wanted, found⟩ : ∃ entry : Entry,
      begun.disk.Finds (begun.disk.place source ++ [name]) entry := by
    rw [created.place]
    obtain file | folder := taken
    · refine ⟨.file ⟨.empty, false⟩, ?_⟩
      rw [Disk.Finds, created.files]
      exact file
    · exact ⟨.folder .empty, (createFolders_keepsFolders _).ok creating _ folder⟩
  obtain ⟨entry, member, same⟩ := found.listed begunSound list
  obtain ⟨before, later, confined, step⟩ := forM_step
    (fun entry member => (confined_permits (rootTarget destination) false).wholeEntry (.refl _)
      (names _ member)) member filling
  have changes := confined begunSound
  have beforeSound := changes.becomes.sound begunSound
  refine (created.trans changes.becomes).admits.mp ?_
  simp only [wholeEntry] at step
  rw [rootTarget_joinName nonempty proper] at step
  split at step
  · have inside := confined_permits (destination.joinName name) false
    have further := (inside.wholeFolder (.refl _) depth).ok step beforeSound
    exact further.becomes.admits.mp (Disk.admits_of_leads proper (wholeFolder_leads beforeSound step))
  · exact copyFile_admits proper step

end Copy
end Cookbook
