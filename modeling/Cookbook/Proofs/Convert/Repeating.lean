import Cookbook.Proofs.Convert.Accepting
import Cookbook.Proofs.Convert.Resuming

/-!
Copying once more. What was copied to a folder can be copied there again: the paths were found usable,
and nothing that is there by then is in the way of anything.
-/

namespace Cookbook

open Action

variable {routed : Location → Prop} {keep : String → Bool} {source target : Path} {final : Disk}
  {first last second before later now ended : Session} {plan : Plan} {name : String}

/-! ## Entries -/

theorem Inward.finds {entry : Entry} (inward : Inward target first before) (sound : first.disk.Sound)
    (apart : Apart (first.disk.place source) (first.disk.place target))
    (avoids : first.disk.Avoids source target)
    (found : first.disk.Finds (first.disk.place source ++ [name]) entry) :
    before.disk.Finds (before.disk.place source ++ [name]) entry := by
  have kept := inward.keepsSource sound apart avoids [name]
  rw [(inward.1 sound).becomes.place]
  cases entry with
  | folder content => exact kept.2.mpr found
  | file data =>
      rw [Disk.Finds, kept.1]
      exact found

theorem Resumes.listed (resumes : Resumes routed keep source target final first second)
    {tree tree' : Tree} (list : first.disk.list source = .ok tree)
    (list' : second.disk.list source = .ok tree') {entry : Entry}
    (member : (name, entry) ∈ tree'.entries) :
    ∃ other, (name, other) ∈ tree.entries ∧ other.isFolder = entry.isFolder := by
  refine Disk.Finds.listed resumes.sound list ?_
  have found := Disk.finds_of_listed resumes.secondSound list' member
  rw [resumes.place] at found
  cases entry with
  | folder content => exact (resumes.still _).2.mp found
  | file data => exact fun absent => found ((resumes.still _).1.trans absent)

theorem Resumes.enter (resumes : Resumes routed keep source target final first second)
    (leads : second.disk.Leads target) (proper : ProperName name)
    (onward : ∀ rest, routed rest → routed (name :: rest)) (kept : keep name = true)
    (folder : first.disk.root.HasFolder (first.disk.place source ++ [name]))
    (changes : Disk.ChangesBelow (first.disk.place target) false first.disk last.disk)
    (led : (target.joinName name).text = "" ∨ last.disk.Leads (target.joinName name) ∧
      last.disk.refuse? (target.joinName name).withoutLastSlash = none) :
    Resumes routed keep (source.joinName name) (target.joinName name) final first second ∧
      second.disk.Creatable (target.joinName name) := by
  have admits := changes.becomes.admits.mp (Disk.admits_of_leads proper led)
  refine ⟨resumes.down proper admits.short onward kept folder, ?_⟩
  refine leads.creatable proper ⟨(resumes.refuse? _).trans admits.accepted, admits.short⟩ ?_
  rw [resumes.place]
  exact resumes.fits.noFile (resumes.covers.folders [name] (by simp [kept]) folder)

theorem forM_again {step : String × Entry → Action Unit} {entries entries' : List (String × Entry)}
    (resumes : Resumes routed keep source target final first second) (leads : second.disk.Leads target)
    (inward : ∀ entry ∈ entries, Keeps (Inward target) (step entry))
    (known : ∀ entry ∈ entries', ∃ other ∈ entries, step other = step entry)
    (again : ∀ entry ∈ entries, ∀ before later now, Inward target first before →
      Resumes routed keep source target final before now → now.disk.Leads target →
      (step entry).run before = .ok () later →
      ∃ ended, (step entry).run now = .ok () ended ∧ ended.disk.Fits final)
    (run : (entries.forM step).run first = .ok () last) :
    ∃ ended, (entries'.forM step).run second = .ok () ended ∧ ended.disk.Fits final := by
  induction entries' generalizing second with
  | nil => exact ⟨second, forM_nil_eq_ok.mpr rfl, resumes.fits⟩
  | cons entry entries' ih =>
      obtain ⟨here, rest⟩ := List.forall_mem_cons.mp known
      obtain ⟨other, member, same⟩ := here
      obtain ⟨before, later, reached, ran⟩ := forM_step inward member run
      obtain ⟨now, done, fits⟩ := again other member before later second reached
        (resumes.earlier reached) leads ran
      have stays := (inward other member).ok done
      have changes := stays.1 resumes.secondSound
      obtain ⟨ended, others, endedFits⟩ := ih (resumes.onward stays fits)
        (leads.mono changes.becomes.same changes.keepsFolders) rest
      rw [same] at done
      exact ⟨ended, forM_cons_eq_ok.mpr ⟨now, done, others⟩, endedFits⟩

theorem Resumes.rootTarget (resumes : Resumes routed keep source target final first second) :
    Resumes routed keep source (Copy.rootTarget target) final first second where
  same := resumes.same
  sound := resumes.sound
  root := resumes.root
  apart := by
    rw [Copy.place_rootTarget]
    exact resumes.apart
  avoids := (Copy.avoids_rootTarget target).mpr resumes.avoids
  leads := resumes.leads
  still := resumes.still
  covers := by
    rw [Copy.place_rootTarget]
    exact resumes.covers
  fits := resumes.fits

/-! ## Folders -/

namespace Copy

theorem fillFile_again {template : Template}
    (resumes : Resumes routed keep source target final first second) (leads : second.disk.Leads target)
    (proper : ProperName name) (there : final.files (first.disk.place target ++ [name]) ≠ none)
    (run : (fillFile plan template (source.joinName name) (target.joinName name)).run first =
      .ok () last) :
    ∃ ended, (fillFile plan template (source.joinName name) (target.joinName name)).run second =
      .ok () ended ∧ ended.disk.Fits final := by
  obtain ⟨text, disk, read, written, -⟩ := fillFile_eq_ok.mp run
  have file := resumes.isFile_joinName proper (Disk.isFile_of_readText read)
  have readAgain : second.disk.readText (source.joinName name) = .ok text := by
    refine Disk.readText_of_same read file ?_
    rw [resumes.place, Disk.place_joinName _ _ proper, (resumes.still _).1]
  obtain ⟨made, writtenAgain⟩ := resumes.writable leads proper there written
    (Text.unlines (plan.apply template (Text.lines text))).toUTF8
  have changes := Disk.writeFile_changesFile resumes.secondSound writtenAgain
  rw [resumes.place, Disk.place_joinName _ _ proper] at changes
  exact ⟨{ second with disk := made }, fillFile_eq_ok.mpr ⟨text, made, readAgain, writtenAgain, rfl⟩,
    resumes.fits.changesFile changes there⟩

theorem copyFile_again (resumes : Resumes routed keep source target final first second)
    (leads : second.disk.Leads target) (proper : ProperName name)
    (there : final.files (first.disk.place target ++ [name]) ≠ none)
    (run : (copyFile (source.joinName name) (target.joinName name)).run first = .ok () last) :
    ∃ ended, (copyFile (source.joinName name) (target.joinName name)).run second = .ok () ended ∧
      ended.disk.Fits final := by
  obtain ⟨disk, copied, -⟩ := change_eq_ok.mp run
  obtain ⟨_, _, _, _, -, emptying, -⟩ := Disk.copyFile_eq_ok copied
  obtain ⟨_, emptyingAgain⟩ := resumes.writable leads proper there emptying ByteArray.empty
  have different : second.disk.place (source.joinName name) ≠
      second.disk.place (target.joinName name) := by
    rw [resumes.place, resumes.place]
    exact (resumes.apart.joinName proper).ne
  obtain ⟨made, copiedAgain⟩ := Disk.copyFile_ok resumes.secondSound
    (resumes.isFile_joinName proper (Disk.isFile_of_copyFile copied)) different emptyingAgain
  have changes := Disk.copyFile_changesFile resumes.secondSound copiedAgain
  rw [resumes.place, Disk.place_joinName _ _ proper] at changes
  exact ⟨_, change_eq_ok.mpr ⟨made, copiedAgain, rfl⟩, resumes.fits.changesFile changes there⟩

theorem createFolders_again (resumes : Resumes routed keep source target final first second)
    (creatable : second.disk.Creatable target)
    (folder : final.root.HasFolder (first.disk.place target))
    (creating : (createFolders target).run first = .ok () last) :
    ∃ now, (createFolders target).run second = .ok () now ∧ now.disk.Leads target ∧
      Resumes routed keep source target final last now := by
  obtain ⟨made, created, leads, adds⟩ := creatable
  have again : (createFolders target).run second = .ok () { second with disk := made } :=
    createFolders_eq_ok.mpr ⟨made, created, rfl⟩
  have makes := (inward_permits target).makeFolders (.refl target)
  have becomes := createFolders_becomes resumes.secondSound again
  refine ⟨_, again, leads, (resumes.onward (makes.ok again) ⟨?_, ?_⟩).earlier (makes.ok creating)⟩
  · intro place there
    obtain before | rfl := (adds place).mp there
    · exact resumes.fits.folders place before
    · rwa [resumes.place]
  · intro place there
    rw [becomes.files] at there
    exact resumes.fits.files place there

/-- That a recipe's file is taken over. -/
def Routed (place : Location) : Prop := Route.ofPlace place ≠ .skip

theorem routed_cons (kept : keepsFolder name = true) (rest : Location) (taken : Routed rest) :
    Routed (name :: rest) := by
  cases rest with
  | nil => exact absurd rfl taken
  | cons next rest =>
      rw [Routed, Route.ofPlace_cons, if_neg (by simpa [keepsFolder] using kept)]
      exact taken

theorem recipeFile_again (resumes : Resumes Routed keepsFolder source target final first second)
    (leads : second.disk.Leads target) (proper : ProperName name)
    (file : first.disk.files (first.disk.place source ++ [name]) ≠ none)
    (run : (recipeFile plan name (source.joinName name) (target.joinName name)).run first =
      .ok () last) :
    ∃ ended, (recipeFile plan name (source.joinName name) (target.joinName name)).run second =
      .ok () ended ∧ ended.disk.Fits final := by
  have there (kept : Route.ofName name ≠ .skip) := resumes.covers.files [name]
    (by rwa [Routed, Route.ofPlace_single]) file
  unfold recipeFile at run ⊢
  split at run
  · exact ⟨second, rfl, resumes.fits⟩
  · next template route => exact fillFile_again resumes leads proper (there (by simp [route])) run
  · next route => exact copyFile_again resumes leads proper (there (by simp [route])) run

theorem recipeEntry_again {depth : Nat} {entry : Entry}
    (resumes : Resumes Routed keepsFolder source target final first second)
    (leads : second.disk.Leads target) (proper : ProperName name)
    (found : first.disk.Finds (first.disk.place source ++ [name]) entry)
    (inner : ∀ {first second last : Session},
      Resumes Routed keepsFolder (source.joinName name) (target.joinName name) final first second →
      second.disk.Creatable (target.joinName name) →
      (recipeFolder plan depth (source.joinName name) (target.joinName name)).run first =
        .ok () last →
      ∃ ended, (recipeFolder plan depth (source.joinName name) (target.joinName name)).run second =
        .ok () ended ∧ ended.disk.Fits final)
    (run : (recipeEntry plan depth source target (name, entry)).run first = .ok () last) :
    ∃ ended, (recipeEntry plan depth source target (name, entry)).run second = .ok () ended ∧
      ended.disk.Fits final := by
  cases entry with
  | file data => exact recipeFile_again resumes leads proper found run
  | folder content =>
      simp only [recipeEntry, Entry.isFolder, if_true] at run ⊢
      split at run
      · next skipped =>
          rw [if_pos skipped]
          exact ⟨second, rfl, resumes.fits⟩
      · next unskipped =>
          rw [if_neg unskipped]
          have kept : keepsFolder name = true := by simpa [keepsFolder] using unskipped
          have permits := inward_permits target
          have within := permits.joinName (.refl target) proper
          have changes := ((permits.recipeFolder within depth).ok run).1 resumes.sound
          obtain ⟨below, creatable⟩ := resumes.enter leads proper (routed_cons kept) kept found changes
            (recipeFolder_leads resumes.sound run)
          exact inner below creatable run

theorem recipeFolder_again {depth : Nat}
    (resumes : Resumes Routed keepsFolder source target final first second)
    (creatable : second.disk.Creatable target)
    (run : (recipeFolder plan depth source target).run first = .ok () last) :
    ∃ ended, (recipeFolder plan depth source target).run second = .ok () ended ∧
      ended.disk.Fits final := by
  induction depth generalizing source target first second last with
  | zero => exact absurd run throw_ne_ok
  | succ depth ih =>
      obtain ⟨_, tree, begun, ⟨⟩, list, creating, filling⟩ := recipeFolder_eq_ok.mp run
      obtain ⟨accepted, led⟩ := Disk.isFolder_iff.mp (Disk.isFolder_of_list list)
      obtain ⟨tree', list'⟩ := Disk.list_of_isFolder
        (Disk.isFolder_iff.mpr ⟨(resumes.refuse? source).trans accepted, resumes.leads⟩)
      have folder := resumes.covers.folders [] rfl (by simpa using led.folder)
      rw [List.append_nil] at folder
      obtain ⟨now, createdAgain, leads, nowResumes⟩ :=
        createFolders_again resumes creatable folder creating
      have permits := inward_permits target
      have started := (permits.makeFolders (.refl target)).ok creating
      have proper := (Disk.lists_of_list resumes.sound list).proper
      suffices ∃ ended, (tree'.inOrder.forM (recipeEntry plan depth source target)).run now =
          .ok () ended ∧ ended.disk.Fits final by
        obtain ⟨ended, fillingAgain, fits⟩ := this
        exact ⟨ended, recipeFolder_eq_ok.mpr
          ⟨depth, tree', now, rfl, list', createdAgain, fillingAgain⟩, fits⟩
      refine forM_again nowResumes leads (fun entry member => permits.recipeEntry (.refl target)
        (proper _ (Tree.mem_inOrder.mp member))) ?_ ?_ filling
      · rintro ⟨name, entry⟩ member
        obtain ⟨other, inside, same⟩ := resumes.listed list list' (Tree.mem_inOrder.mp member)
        exact ⟨(name, other), Tree.mem_inOrder.mpr inside, by simp only [recipeEntry, same]⟩
      · rintro ⟨name, entry⟩ member before later now reached resumesNow leadsNow step
        have inside := Tree.mem_inOrder.mp member
        have found := (trans_of (Inward target) started reached).finds resumes.sound resumes.apart
          resumes.avoids (Disk.finds_of_listed resumes.sound list inside)
        exact recipeEntry_again resumesNow leadsNow (proper _ inside) found ih step

theorem wholeEntry_again {depth : Nat} {entry : Entry}
    (resumes : Resumes (fun _ => True) (fun _ => true) source target final first second)
    (leads : second.disk.Leads target) (proper : ProperName name)
    (found : first.disk.Finds (first.disk.place source ++ [name]) entry)
    (inner : ∀ {first second last : Session},
      Resumes (fun _ => True) (fun _ => true) (source.joinName name) (target.joinName name) final
        first second →
      second.disk.Creatable (target.joinName name) →
      (wholeFolder depth (source.joinName name) (target.joinName name)).run first = .ok () last →
      ∃ ended, (wholeFolder depth (source.joinName name) (target.joinName name)).run second =
        .ok () ended ∧ ended.disk.Fits final)
    (run : (wholeEntry depth source target (name, entry)).run first = .ok () last) :
    ∃ ended, (wholeEntry depth source target (name, entry)).run second = .ok () ended ∧
      ended.disk.Fits final := by
  cases entry with
  | file data =>
      exact copyFile_again resumes leads proper (resumes.covers.files [name] trivial found) run
  | folder content =>
      have permits := inward_permits target
      have within := permits.joinName (.refl target) proper
      have changes := ((permits.wholeFolder within depth).ok run).1 resumes.sound
      obtain ⟨below, creatable⟩ := resumes.enter leads proper (fun _ taken => taken) rfl found changes
        (wholeFolder_leads resumes.sound run)
      exact inner below creatable run

theorem wholeFolder_again {depth : Nat}
    (resumes : Resumes (fun _ => True) (fun _ => true) source target final first second)
    (creatable : second.disk.Creatable target)
    (run : (wholeFolder depth source target).run first = .ok () last) :
    ∃ ended, (wholeFolder depth source target).run second = .ok () ended ∧
      ended.disk.Fits final := by
  induction depth generalizing source target first second last with
  | zero => exact absurd run throw_ne_ok
  | succ depth ih =>
      obtain ⟨_, begun, tree, ⟨⟩, creating, list, filling⟩ := wholeFolder_eq_ok.mp run
      obtain ⟨accepted, led⟩ := Disk.isFolder_iff.mp (Disk.isFolder_of_list list)
      have permits := inward_permits target
      have begunResumes := resumes.earlier ((permits.makeFolders (.refl target)).ok creating)
      have folder := begunResumes.covers.folders [] rfl (by simpa using led.folder)
      rw [List.append_nil, (createFolders_becomes resumes.sound creating).place] at folder
      obtain ⟨now, createdAgain, leads, nowResumes⟩ :=
        createFolders_again resumes creatable folder creating
      obtain ⟨tree', list'⟩ := Disk.list_of_isFolder
        (Disk.isFolder_iff.mpr ⟨(nowResumes.refuse? source).trans accepted, nowResumes.leads⟩)
      have proper := (Disk.lists_of_list nowResumes.sound list).proper
      suffices ∃ ended, (tree'.entries.forM (wholeEntry depth source target)).run now =
          .ok () ended ∧ ended.disk.Fits final by
        obtain ⟨ended, fillingAgain, fits⟩ := this
        exact ⟨ended, wholeFolder_eq_ok.mpr
          ⟨depth, now, tree', rfl, createdAgain, list', fillingAgain⟩, fits⟩
      refine forM_again nowResumes leads (fun entry member => permits.wholeEntry (.refl target)
        (proper _ member)) ?_ ?_ filling
      · rintro ⟨name, entry⟩ member
        obtain ⟨other, inside, same⟩ := nowResumes.listed list list' member
        exact ⟨(name, other), inside, by simp only [wholeEntry, same]⟩
      · rintro ⟨name, entry⟩ member before later now reached resumesNow leadsNow step
        have found := reached.finds nowResumes.sound nowResumes.apart nowResumes.avoids
          (Disk.finds_of_listed nowResumes.sound list member)
        exact wholeEntry_again resumesNow leadsNow (proper _ member) found ih step

/-! ## Copies -/

theorem recipe_again (resumes : Resumes Routed keepsFolder source target final first second)
    (there : second.disk.isFolder (rootTarget target) = true)
    (run : (recipe plan source target).run first = .ok () last) :
    ∃ ended, (recipe plan source target).run second = .ok () ended ∧ ended.disk.Fits final := by
  have limit : second.disk.pathLimit = first.disk.pathLimit := by rw [resumes.same]
  rw [recipe_run] at run ⊢
  rw [limit]
  exact recipeFolder_again resumes.rootTarget (Disk.creatable_of_isFolder there) run

theorem whole_again (resumes : Resumes (fun _ => True) (fun _ => true) source target final first second)
    (there : second.disk.isFolder (rootTarget target) = true)
    (run : (whole source target).run first = .ok () last) :
    ∃ ended, (whole source target).run second = .ok () ended ∧ ended.disk.Fits final := by
  have limit : second.disk.pathLimit = first.disk.pathLimit := by rw [resumes.same]
  rw [whole_run] at run ⊢
  rw [limit]
  exact wholeFolder_again resumes.rootTarget (Disk.creatable_of_isFolder there) run

end Copy
end Cookbook
