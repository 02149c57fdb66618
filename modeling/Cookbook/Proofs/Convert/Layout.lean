import Cookbook.Proofs.Convert.Confinement
import Cookbook.Proofs.Disk.Passing

/-!
The folders that copying makes: those that the path of the target passes, and one for each folder of the
source that is not skipped.
-/

namespace Cookbook

open Action

variable {session after : Session} {plan : Plan} {source target : Path} {keep : String → Bool}

namespace Disk

/-- That making a target makes no folder in a source. -/
def Avoids (d : Disk) (source target : Path) : Prop :=
  ∀ place, d.Passes target place → d.place source <+: place → d.root.HasFolder place

theorem Direct.avoids {d : Disk} (direct : d.Direct target)
    (apart : Apart (d.place source) (d.place target)) : d.Avoids source target := by
  intro place passes below
  obtain there | above := direct place passes
  · exact there
  · exact absurd (below.trans above) apart.above

/-- That a disk has the folders of another one, and those of a source below a target so far as their
names are kept. -/
def Lays (d made : Disk) (keep : String → Bool) (source target : Path) : Prop :=
  d.Adds made fun place => d.Passes target place ∨
    ∃ name rest, place = d.place target ++ name :: rest ∧ (name :: rest).all keep = true ∧
      d.root.HasFolder (d.place source ++ name :: rest)

end Disk

/-! ## Entries -/

/-- That a step makes the folders of an entry that is kept. -/
def LaysEntry (keep : String → Bool) (source target : Path) (entry : String × Entry)
    (step : Action Unit) : Prop :=
  ∀ session after, session.disk.Sound → session.disk.Opens target →
    Apart (session.disk.place source ++ [entry.1]) (session.disk.place target) →
    (session.disk.root.HasFolder (session.disk.place source ++ [entry.1]) ↔
      entry.2.isFolder = true) →
    step.run session = .ok () after →
    session.disk.Adds after.disk fun place =>
      ∃ rest, place = session.disk.place target ++ entry.1 :: rest ∧
        (entry.1 :: rest).all keep = true ∧
        session.disk.root.HasFolder (session.disk.place source ++ entry.1 :: rest)

theorem laysEntry_of_same {entry : String × Entry} {step : Action Unit}
    (nothing : keep entry.1 = false ∨ entry.2.isFolder = false)
    (same : ∀ session after, step.run session = .ok () after →
      session.disk.SameFolders after.disk) : LaysEntry keep source target entry step := by
  intro session after sound opens apart shown run place
  rw [(same session after run).iff]
  refine (or_iff_left ?_).symm
  rintro ⟨rest, -, kept, folder⟩
  cases nothing with
  | inl skipped => simp [skipped] at kept
  | inr isFile =>
      rw [← List.singleton_append, ← List.append_assoc] at folder
      rw [shown.mp folder.of_append] at isFile
      cases isFile

theorem laysEntry_folder {name : String} (proper : ProperName name) (content : Tree)
    (kept : keep name = true) {step : Action Unit}
    (inner : ∀ session after, session.disk.Sound →
      Apart (session.disk.place (source.joinName name))
        (session.disk.place (target.joinName name)) →
      session.disk.Avoids (source.joinName name) (target.joinName name) →
      step.run session = .ok () after →
      session.disk.Lays after.disk keep (source.joinName name) (target.joinName name)) :
    LaysEntry keep source target (name, .folder content) step := by
  intro session after sound opens apart shown run place
  have folder : session.disk.root.HasFolder (session.disk.place source ++ [name]) := shown.mpr rfl
  have lays := inner session after sound
  unfold Disk.Avoids Disk.Lays at lays
  rw [Disk.place_joinName _ _ proper, Disk.place_joinName _ _ proper] at lays
  have inside : Apart (session.disk.place source ++ [name]) (session.disk.place target ++ [name]) := by
    simpa using apart.append [] [name]
  -- What the target passes is there by now, and the new folder is not in the one that is copied.
  have avoids : ∀ place, session.disk.Passes (target.joinName name) place →
      session.disk.place source ++ [name] <+: place → session.disk.root.HasFolder place := by
    intro place passes below
    rw [Disk.passes_joinName proper] at passes
    obtain passes | rfl := passes
    · exact opens place passes
    · exact absurd below inside.above
  rw [lays inside avoids run place]
  simp only [Disk.passes_joinName proper]
  constructor
  · rintro (there | (passes | rfl) | ⟨next, rest, rfl, rests, there⟩)
    · exact .inl there
    · exact .inl (opens place passes)
    · exact .inr ⟨[], rfl, by simp [kept], folder⟩
    · refine .inr ⟨next :: rest, by simp, ?_, by simpa using there⟩
      rw [List.all_cons, kept, rests, Bool.true_and]
  · rintro (there | ⟨rest, rfl, rests, there⟩)
    · exact .inl there
    · cases rest with
      | nil => exact .inr (.inl (.inr rfl))
      | cons next rest =>
          rw [List.all_cons, kept, Bool.true_and] at rests
          exact .inr (.inr ⟨next, rest, by simp, rests, by simpa using there⟩)

theorem forM_lays {entries : List (String × Entry)} {step : String × Entry → Action Unit}
    (lays : ∀ entry ∈ entries, LaysEntry keep source target entry (step entry))
    (confined : ∀ entry ∈ entries, Keeps (Confined target false) (step entry))
    (sound : session.disk.Sound) (opens : session.disk.Opens target)
    (apart : ∀ entry ∈ entries,
      Apart (session.disk.place source ++ [entry.1]) (session.disk.place target))
    (shown : ∀ entry ∈ entries,
      (session.disk.root.HasFolder (session.disk.place source ++ [entry.1]) ↔
        entry.2.isFolder = true))
    (run : (entries.forM step).run session = .ok () after) :
    session.disk.Adds after.disk fun place =>
      ∃ entry ∈ entries, ∃ rest, place = session.disk.place target ++ entry.1 :: rest ∧
        (entry.1 :: rest).all keep = true ∧
        session.disk.root.HasFolder (session.disk.place source ++ entry.1 :: rest) := by
  induction entries generalizing session with
  | nil =>
      rw [forM_nil_eq_ok] at run
      subst run
      simp [Disk.Adds]
  | cons entry entries ih =>
      obtain ⟨between, first, rest⟩ := forM_cons_eq_ok.mp run
      rw [List.forall_mem_cons] at lays confined apart shown
      have adds := lays.1 session between sound opens apart.1 shown.1 first
      have changes := confined.1.ok first sound
      have becomes := changes.becomes
      -- What an entry adds lies below the target, and thus in no other entry of the source.
      have sourceSame (other : String × Entry) (member : other ∈ entries) (rest : Location) :
          between.disk.root.HasFolder (session.disk.place source ++ other.1 :: rest) ↔
            session.disk.root.HasFolder (session.disk.place source ++ other.1 :: rest) := by
        rw [adds]
        refine or_iff_left ?_
        rintro ⟨below, same, -⟩
        rw [← List.singleton_append, ← List.append_assoc] at same
        exact ((apart.2 other member).append rest (entry.1 :: below)).ne same
      have later := ih lays.2 confined.2 (becomes.sound sound)
        (opens.mono becomes changes.keepsFolders)
      simp only [becomes.place] at later
      have stillShown (other : String × Entry) (member : other ∈ entries) :=
        (sourceSame other member []).trans (shown.2 other member)
      intro place
      rw [later apart.2 stillShown rest place, adds place, or_assoc]
      refine or_congr_right ?_
      simp only [List.mem_cons, exists_eq_or_imp]
      refine or_congr_right (exists_congr fun other => and_congr_right fun member => ?_)
      simp only [sourceSame other member]

/-! ## Folders -/

/-- That the folders in a folder are those of its entries. -/
structure ListsFolders (d : Disk) (place : Location) (entries : List (String × Entry)) : Prop where
  shown : ∀ entry ∈ entries, (d.root.HasFolder (place ++ [entry.1]) ↔ entry.2.isFolder = true)
  complete : ∀ name rest, d.root.HasFolder (place ++ name :: rest) → ∃ entry ∈ entries, entry.1 = name

theorem ListsFolders.perm {d : Disk} {place : Location} {entries entries' : List (String × Entry)}
    (lists : ListsFolders d place entries) (perm : entries'.Perm entries) :
    ListsFolders d place entries' := by
  refine ⟨fun entry member => lists.shown entry (perm.mem_iff.mp member), ?_⟩
  intro name rest there
  obtain ⟨entry, member, same⟩ := lists.complete name rest there
  exact ⟨entry, perm.mem_iff.mpr member, same⟩

theorem ListsFolders.congr {d made : Disk} {place : Location} {entries : List (String × Entry)}
    (lists : ListsFolders d place entries)
    (same : ∀ rest, made.root.HasFolder (place ++ rest) ↔ d.root.HasFolder (place ++ rest)) :
    ListsFolders made place entries := by
  refine ⟨?_, ?_⟩
  · intro entry member
    rw [same]
    exact lists.shown entry member
  · intro name rest there
    rw [same] at there
    exact lists.complete name rest there

theorem listsFolders_of_list {d : Disk} {tree : Tree} (sound : d.Sound)
    (list : d.list source = .ok tree) : ListsFolders d (d.place source) tree.entries := by
  have listed := Disk.list_eq_ok list
  have treeSound : tree.Sound := sound.root.at? listed
  have below (name : String) (rest : Location) :
      d.root.HasFolder (d.place source ++ name :: rest) ↔
        ∃ content, tree.get? name = some (.folder content) ∧ content.HasFolder rest := by
    rw [Tree.HasFolder, Tree.at?_append listed, ← Tree.HasFolder, Tree.hasFolder_cons]
  refine ⟨?_, ?_⟩
  · rintro ⟨name, entry⟩ member
    rw [Tree.mem_entries_iff treeSound] at member
    rw [below, member]
    cases entry <;> simp [Entry.isFolder, Tree.hasFolder_nil]
  · intro name rest there
    obtain ⟨content, inside, -⟩ := (below name rest).mp there
    exact ⟨_, (Tree.mem_entries_iff treeSound).mpr inside, rfl⟩

/-- That there is a folder or a file at a place, as an entry is one. -/
def Disk.Finds (d : Disk) (place : Location) : Entry → Prop
  | .folder _ => d.root.HasFolder place
  | .file _ => d.files place ≠ none

theorem Disk.finds_of_listed {d : Disk} {tree : Tree} {name : String} {entry : Entry} (sound : d.Sound)
    (list : d.list source = .ok tree) (member : (name, entry) ∈ tree.entries) :
    d.Finds (d.place source ++ [name]) entry := by
  have listed := list_eq_ok list
  have found := (Tree.mem_entries_iff (sound.root.at? listed)).mp member
  cases entry with
  | folder content => exact ⟨content, by rw [Tree.at?_append listed, Tree.at?_singleton, found]⟩
  | file data =>
      rw [Finds, files, Tree.fileAt?_append listed, Tree.fileAt?, found]
      exact Option.some_ne_none data

theorem Disk.Finds.listed {d : Disk} {tree : Tree} {name : String} {entry : Entry} (sound : d.Sound)
    (list : d.list source = .ok tree) (found : d.Finds (d.place source ++ [name]) entry) :
    ∃ other, (name, other) ∈ tree.entries ∧ other.isFolder = entry.isFolder := by
  have shown := (listsFolders_of_list sound list).shown
  cases entry with
  | folder content =>
      obtain ⟨⟨_, other⟩, inside, rfl⟩ := (listsFolders_of_list sound list).complete name [] found
      exact ⟨other, inside, (shown _ inside).mp found⟩
  | file data =>
      obtain ⟨⟨other, entry⟩, inside, starts⟩ := (lists_of_list sound list).complete [name] found
      obtain ⟨rfl, -⟩ := List.cons_prefix_cons.mp starts
      have noFolder : ¬ d.root.HasFolder (d.place source ++ [other]) :=
        fun there => found (files_of_hasFolder there)
      exact ⟨entry, inside, by simpa [noFolder, Entry.isFolder] using shown _ inside⟩

theorem Disk.Avoids.source_adds {d made : Disk} (avoids : d.Avoids source target)
    (adds : d.Adds made (d.Passes target)) (rest : Location) :
    made.root.HasFolder (d.place source ++ rest) ↔ d.root.HasFolder (d.place source ++ rest) :=
  (adds _).trans (or_iff_left_of_imp fun passes => avoids _ passes (List.prefix_append _ _))

/-- That making a target makes no folder in anything that a source holds. -/
def Disk.Skirts (d : Disk) (source target : Path) : Prop :=
  ∀ name, d.root.at? (d.place source ++ [name]) ≠ none → ∀ place, d.Passes target place →
    d.place source ++ [name] <+: place → d.root.HasFolder place

theorem Disk.Avoids.skirts {d : Disk} (avoids : d.Avoids source target) : d.Skirts source target :=
  fun _ _ place passes below => avoids place passes ((List.prefix_append _ _).trans below)

theorem folder_lays {begun : Session} {entries : List (String × Entry)}
    {step : String × Entry → Action Unit} (creating : (createFolders target).run session = .ok () begun)
    (avoids : ∀ entry ∈ entries, ∀ place, session.disk.Passes target place →
      session.disk.place source ++ [entry.1] <+: place → session.disk.root.HasFolder place)
    (lists : ListsFolders session.disk (session.disk.place source) entries)
    (lays : ∀ entry ∈ entries, LaysEntry keep source target entry (step entry))
    (confined : ∀ entry ∈ entries, Keeps (Confined target false) (step entry))
    (sound : session.disk.Sound)
    (apart : ∀ entry ∈ entries,
      Apart (session.disk.place source ++ [entry.1]) (session.disk.place target))
    (run : (entries.forM step).run begun = .ok () after) :
    session.disk.Lays after.disk keep source target := by
  have becomes := Copy.createFolders_becomes sound creating
  obtain ⟨disk, created, rfl⟩ := createFolders_eq_ok.mp creating
  have made := Disk.createFolders_adds sound created
  have opens := Disk.createFolders_opens created
  have sourceSame (entry : String × Entry) (member : entry ∈ entries) (rest : Location) :
      disk.root.HasFolder (session.disk.place source ++ entry.1 :: rest) ↔
        session.disk.root.HasFolder (session.disk.place source ++ entry.1 :: rest) :=
    (made _).trans (or_iff_left_of_imp fun passes => avoids entry member _ passes (by simp))
  have adds := fun apart shown =>
    forM_lays lays confined (becomes.sound sound) opens apart shown run
  simp only [becomes.place] at adds
  have stillShown (entry : String × Entry) (member : entry ∈ entries) :=
    (sourceSame entry member []).trans (lists.shown entry member)
  intro place
  rw [adds apart stillShown place, made place, or_assoc]
  refine or_congr_right (or_congr_right ⟨?_, ?_⟩)
  · rintro ⟨entry, member, rest, same, kept, there⟩
    exact ⟨entry.1, rest, same, kept, (sourceSame entry member rest).mp there⟩
  · rintro ⟨name, rest, rfl, kept, there⟩
    obtain ⟨entry, member, rfl⟩ := lists.complete name rest there
    exact ⟨entry, member, rest, rfl, kept, (sourceSame entry member rest).mpr there⟩

namespace Copy

theorem copyFile_sameFolders (run : (copyFile source target).run session = .ok () after) :
    session.disk.SameFolders after.disk := by
  obtain ⟨disk, copied, rfl⟩ := change_eq_ok.mp run
  exact Disk.copyFile_sameFolders copied

theorem fillFile_sameFolders {template : Template}
    (run : (fillFile plan template source target).run session = .ok () after) :
    session.disk.SameFolders after.disk := by
  obtain ⟨text, disk, -, written, rfl⟩ := fillFile_eq_ok.mp run
  exact Disk.writeFile_sameFolders written

theorem recipeFile_sameFolders {name : String}
    (run : (recipeFile plan name source target).run session = .ok () after) :
    session.disk.SameFolders after.disk := by
  unfold recipeFile at run
  split at run
  · obtain ⟨-, rfl⟩ := pure_eq_ok.mp run
    exact .refl _
  · exact fillFile_sameFolders run
  · exact copyFile_sameFolders run

theorem passes_rootTarget {d : Disk} (destination : Path) {place : Location} :
    d.Passes (rootTarget destination) place ↔ d.Passes destination place := by
  rw [Disk.Passes, Disk.Passes, isAbsolute_rootTarget, parts_rootTarget]

theorem avoids_rootTarget {d : Disk} (destination : Path) :
    d.Avoids source (rootTarget destination) ↔ d.Avoids source destination := by
  simp only [Disk.Avoids, passes_rootTarget]

theorem lays_rootTarget {d made : Disk} (destination : Path) :
    d.Lays made keep source (rootTarget destination) ↔ d.Lays made keep source destination := by
  simp only [Disk.Lays, passes_rootTarget, place_rootTarget]

/-- That the folders with a name are copied with a recipe. -/
def keepsFolder (name : String) : Bool := !Route.skippedFolders.contains name

theorem recipeEntry_lays {depth : Nat} {name : String} (proper : ProperName name) (entry : Entry)
    (inner : ∀ session after, session.disk.Sound →
      Apart (session.disk.place (source.joinName name)) (session.disk.place (target.joinName name)) →
      session.disk.Avoids (source.joinName name) (target.joinName name) →
      (recipeFolder plan depth (source.joinName name) (target.joinName name)).run session =
        .ok () after →
      session.disk.Lays after.disk keepsFolder (source.joinName name) (target.joinName name)) :
    LaysEntry keepsFolder source target (name, entry)
      (recipeEntry plan depth source target (name, entry)) := by
  cases entry with
  | file data => exact laysEntry_of_same (.inr rfl) fun _ _ run => recipeFile_sameFolders run
  | folder content =>
      simp only [recipeEntry, Entry.isFolder, if_true]
      split
      · next skipped =>
          refine laysEntry_of_same (.inl (by simpa [keepsFolder] using skipped)) ?_
          intro session after run
          obtain ⟨-, rfl⟩ := pure_eq_ok.mp run
          exact .refl _
      · next kept => exact laysEntry_folder proper content (by simpa [keepsFolder] using kept) inner

theorem recipeFolder_lays {depth : Nat} (sound : session.disk.Sound)
    (beside : session.disk.Beside (session.disk.place source) (session.disk.place target))
    (skirts : session.disk.Skirts source target)
    (run : (recipeFolder plan depth source target).run session = .ok () after) :
    session.disk.Lays after.disk keepsFolder source target := by
  induction depth generalizing source target session after with
  | zero => exact absurd run throw_ne_ok
  | succ depth ih =>
      obtain ⟨_, tree, begun, ⟨⟩, list, creating, filling⟩ := recipeFolder_eq_ok.mp run
      have proper := (Disk.lists_of_list sound list).proper
      have known : ∀ entry ∈ tree.inOrder,
          session.disk.root.at? (session.disk.place source ++ [entry.1]) ≠ none := by
        intro entry member
        simp [Disk.at?_listed sound list (Tree.mem_inOrder.mp member)]
      refine folder_lays creating (fun entry member => skirts entry.1 (known entry member))
        ((listsFolders_of_list sound list).perm tree.inOrder_perm) ?_ ?_ sound
        (fun entry member => beside entry.1 (known entry member)) filling
      · rintro ⟨name, entry⟩ member
        exact recipeEntry_lays (proper _ (Tree.mem_inOrder.mp member)) entry
          fun _ _ sound apart avoids run => ih sound apart.beside avoids.skirts run
      · exact fun entry member => (confined_permits target false).recipeEntry (.refl target)
          (proper _ (Tree.mem_inOrder.mp member))

theorem wholeFolder_lays {depth : Nat} (sound : session.disk.Sound)
    (apart : Apart (session.disk.place source) (session.disk.place target))
    (avoids : session.disk.Avoids source target)
    (run : (wholeFolder depth source target).run session = .ok () after) :
    session.disk.Lays after.disk (fun _ => true) source target := by
  induction depth generalizing source target session after with
  | zero => exact absurd run throw_ne_ok
  | succ depth ih =>
      obtain ⟨_, begun, tree, ⟨⟩, creating, list, filling⟩ := wholeFolder_eq_ok.mp run
      have created := createFolders_becomes sound creating
      have proper := (Disk.lists_of_list (created.sound sound) list).proper
      have lists : ListsFolders session.disk (session.disk.place source) tree.entries := by
        have begunLists := listsFolders_of_list (created.sound sound) list
        rw [created.place] at begunLists
        obtain ⟨disk, making, rfl⟩ := createFolders_eq_ok.mp creating
        have adds := Disk.createFolders_adds sound making
        exact begunLists.congr fun rest => (avoids.source_adds adds rest).symm
      refine folder_lays creating
        (fun _ _ place passes below => avoids place passes ((List.prefix_append _ _).trans below))
        lists ?_ ?_ sound (fun entry _ => apart.entry entry.1) filling
      · rintro ⟨name, entry⟩ member
        have single := proper _ member
        cases entry with
        | file data => exact laysEntry_of_same (.inr rfl) fun _ _ run => copyFile_sameFolders run
        | folder content =>
            refine laysEntry_folder single content rfl ?_
            exact fun _ _ sound apart avoids run => ih sound apart avoids run
      · exact fun entry member =>
          (confined_permits target false).wholeEntry (.refl target) (proper _ member)

theorem recipe_lays {destination : Path} (sound : session.disk.Sound)
    (apart : Apart (session.disk.place source) (session.disk.place destination))
    (avoids : session.disk.Avoids source destination)
    (run : (recipe plan source destination).run session = .ok () after) :
    session.disk.Lays after.disk keepsFolder source destination := by
  rw [recipe_run] at run
  rw [← place_rootTarget _ destination] at apart
  exact (lays_rootTarget destination).mp
    (recipeFolder_lays sound apart.beside ((avoids_rootTarget destination).mpr avoids).skirts run)

theorem whole_lays {destination : Path} (sound : session.disk.Sound)
    (apart : Apart (session.disk.place source) (session.disk.place destination))
    (avoids : session.disk.Avoids source destination)
    (run : (whole source destination).run session = .ok () after) :
    session.disk.Lays after.disk (fun _ => true) source destination := by
  rw [whole_run] at run
  rw [← place_rootTarget _ destination] at apart
  exact (lays_rootTarget destination).mp
    (wholeFolder_lays sound apart ((avoids_rootTarget destination).mpr avoids) run)

end Copy

end Cookbook
