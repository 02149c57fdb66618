import Cookbook.Convert.Copy
import Cookbook.Proofs.Disk.Folders
import Cookbook.Proofs.Disk.Transfer

/-!
Copying folders, as far as files go. A recipe's folder is transferred to its target with the fate that
the plan has for each file, and the Gradle wrapper with the fate of being copied as it is.
-/

namespace Cookbook

/-! ## Fates -/

/-- What becomes of the file of a recipe at a place, the root of the recipe being no file. -/
def Route.ofPlace (place : Location) : Route :=
  match place.getLast? with
  | none => .skip
  | some name =>
      if place.dropLast.any fun folder => skippedFolders.contains folder then .skip else ofName name

theorem Route.ofPlace_single (name : String) : ofPlace [name] = ofName name := by
  simp [ofPlace]

theorem Route.ofPlace_cons (folder name : String) (rest : Location) :
    ofPlace (folder :: name :: rest) =
      if skippedFolders.contains folder then .skip else ofPlace (name :: rest) := by
  rw [ofPlace, ofPlace, List.getLast?_cons_cons, List.dropLast_cons_cons, List.any_cons]
  cases List.getLast? (name :: rest) with
  | none => simp
  | some last => cases skippedFolders.contains folder <;> simp

def Plan.rewrite (plan : Plan) (template : Template) (bytes : ByteArray) : ByteArray :=
  match String.fromUTF8? bytes with
  | some text => (Text.unlines (plan.apply template (Text.lines text))).toUTF8
  | none => bytes

def Plan.fate (plan : Plan) : Fate
  | _, none, old => old
  | place, some data, old => match Route.ofPlace place with
      | .skip => old
      | .fill template => some (.rewritten old (plan.rewrite template data.bytes))
      | .copy => some data

theorem Plan.fate_sparing (plan : Plan) : plan.fate.Sparing := fun _ _ => rfl

theorem Plan.fate_skip {plan : Plan} {place : Location} (skip : Route.ofPlace place = .skip)
    (data old : Option FileData) : plan.fate place data old = old := by
  cases data with
  | none => rfl
  | some data => rw [fate, skip]

def Fate.copied : Fate := fun _ data old => data.or old

theorem Fate.copied_sparing : Fate.copied.Sparing := fun _ _ => rfl

open Action

variable {session after : Session} {plan : Plan} {source target : Path}

/-! ## What copying has done when it succeeds -/

/-- What a folder holds, in the order of the names. -/
def Tree.inOrder (tree : Tree) : List (String × Entry) :=
  sortBy (fun first second => first.1 ≤ second.1) tree.entries

theorem Tree.inOrder_perm (tree : Tree) : tree.inOrder.Perm tree.entries := sortBy_perm _ _

theorem Tree.mem_inOrder {tree : Tree} {entry : String × Entry} :
    entry ∈ tree.inOrder ↔ entry ∈ tree.entries :=
  tree.inOrder_perm.mem_iff

namespace Copy

/-- The step of `recipeFolder` at one entry. -/
def recipeEntry (plan : Plan) (depth : Nat) (source target : Path) :
    String × Entry → Action Unit
  | (name, entry) =>
      if entry.isFolder then
        if Route.skippedFolders.contains name then return
        else recipeFolder plan depth (source.joinName name) (target.joinName name)
      else recipeFile plan name (source.joinName name) (target.joinName name)

/-- The step of `wholeFolder` at one entry. -/
def wholeEntry (depth : Nat) (source target : Path) : String × Entry → Action Unit
  | (name, entry) =>
      if entry.isFolder then wholeFolder depth (source.joinName name) (target.joinName name)
      else copyFile (source.joinName name) (target.joinName name)

theorem recipeFolder_eq_ok {depth : Nat} :
    (recipeFolder plan depth source target).run session = .ok () after ↔
      ∃ below tree begun, depth = below + 1 ∧ session.disk.list source = .ok tree ∧
        (createFolders target).run session = .ok () begun ∧
        (tree.inOrder.forM (recipeEntry plan below source target)).run begun = .ok () after := by
  constructor
  · intro run
    cases depth with
    | zero => exact absurd run throw_ne_ok
    | succ below =>
        simp only [recipeFolder, bind_eq_ok, look_eq_ok] at run
        obtain ⟨tree, _, ⟨list, rfl⟩, ⟨⟩, begun, creating, filling⟩ := run
        exact ⟨below, tree, begun, rfl, list, creating, filling⟩
  · rintro ⟨below, tree, begun, rfl, list, creating, filling⟩
    rw [recipeFolder, run_bind_of_ok (look_eq_ok.mpr ⟨list, rfl⟩), run_bind_of_ok creating]
    exact filling

theorem wholeFolder_eq_ok {depth : Nat} :
    (wholeFolder depth source target).run session = .ok () after ↔
      ∃ below begun tree, depth = below + 1 ∧
        (createFolders target).run session = .ok () begun ∧ begun.disk.list source = .ok tree ∧
        (tree.entries.forM (wholeEntry below source target)).run begun = .ok () after := by
  constructor
  · intro run
    cases depth with
    | zero => exact absurd run throw_ne_ok
    | succ below =>
        simp only [wholeFolder, bind_eq_ok, look_eq_ok] at run
        obtain ⟨⟨⟩, begun, creating, tree, _, ⟨list, rfl⟩, filling⟩ := run
        exact ⟨below, begun, tree, rfl, creating, list, filling⟩
  · rintro ⟨below, begun, tree, rfl, creating, list, filling⟩
    rw [wholeFolder, run_bind_of_ok creating, run_bind_of_ok (look_eq_ok.mpr ⟨list, rfl⟩)]
    exact filling

theorem recipe_run (destination : Path) (session : Session) :
    (recipe plan source destination).run session =
      (recipeFolder plan session.disk.pathLimit source (rootTarget destination)).run session :=
  rfl

theorem whole_run (source destination : Path) (session : Session) :
    (whole source destination).run session =
      (wholeFolder session.disk.pathLimit source (rootTarget destination)).run session :=
  rfl

theorem fillFile_eq_ok {template : Template} :
    (fillFile plan template source target).run session = .ok () after ↔
      ∃ text disk, session.disk.readText source = .ok text ∧
        session.disk.writeFile target
          (Text.unlines (plan.apply template (Text.lines text))).toUTF8 = .ok disk ∧
        { session with disk } = after := by
  simp only [fillFile, bind_eq_ok, readText_eq_ok, writeText, change_eq_ok]
  constructor
  · rintro ⟨text, _, ⟨read, rfl⟩, disk, written, same⟩
    exact ⟨text, disk, read, written, same⟩
  · rintro ⟨text, disk, read, written, same⟩
    exact ⟨text, session, ⟨read, rfl⟩, disk, written, same⟩

end Copy

/-! ## Entries -/

/-- That a step copies an entry of a folder to another folder. -/
def Copies (fate : Fate) (source target : Path) (entry : String × Entry) (step : Action Unit) :
    Prop :=
  ∀ session after, session.disk.Sound →
    Apart (session.disk.place source ++ [entry.1]) (session.disk.place target) →
    Shown session.disk.files (session.disk.place source ++ [entry.1]) entry.2 →
    step.run session = .ok () after →
    session.disk.Becomes after.disk
      (transfer (fate.below entry.1) (session.disk.place source ++ [entry.1])
        (session.disk.place target ++ [entry.1]) session.disk.files)

theorem forM_becomes {fate : Fate} {entries : List (String × Entry)}
    {step : String × Entry → Action Unit}
    (copies : ∀ entry ∈ entries, Copies fate source target entry (step entry))
    (nodup : (entries.map (·.1)).Nodup) (sound : session.disk.Sound)
    (apart : ∀ entry ∈ entries,
      Apart (session.disk.place source ++ [entry.1]) (session.disk.place target))
    (shown : ∀ entry ∈ entries,
      Shown session.disk.files (session.disk.place source ++ [entry.1]) entry.2)
    (run : (entries.forM step).run session = .ok () after) :
    session.disk.Becomes after.disk
      (transferOf fate (session.disk.place source) (session.disk.place target) (entries.map (·.1))
        session.disk.files) := by
  induction entries generalizing session with
  | nil =>
      rw [forM_nil_eq_ok] at run
      subst run
      exact (Disk.Becomes.refl sound).congr fun _ => by simp [transferOf]
  | cons entry entries ih =>
      obtain ⟨between, first, rest⟩ := forM_cons_eq_ok.mp run
      rw [List.forall_mem_cons] at copies apart shown
      rw [List.map_cons, List.nodup_cons] at nodup
      have becomes := copies.1 session between sound apart.1 shown.1 first
      have later := ih copies.2 nodup.2 (becomes.sound sound)
      rw [becomes.place, becomes.place, becomes.files] at later
      rw [List.map_cons, ← transferOf_cons (List.forall_mem_map.mpr apart.2) nodup.1]
      refine becomes.trans (later apart.2 ?_ rest)
      intro other member
      apply (shown.2 other member).congr
      intro below
      exact transfer_outside ((apart.2 other member).append below [entry.1]).below

/-- That a target is apart from everything that a source holds. -/
def Disk.Beside (d : Disk) (source target : Location) : Prop :=
  ∀ name, d.root.at? (source ++ [name]) ≠ none → Apart (source ++ [name]) target

theorem Apart.entry {source target : Location} (apart : Apart source target) (name : String) :
    Apart (source ++ [name]) target := by
  simpa using apart.append [name] []

theorem Apart.joinName {d : Disk} (apart : Apart (d.place source) (d.place target)) {name : String}
    (proper : ProperName name) :
    Apart (d.place (source.joinName name)) (d.place (target.joinName name)) := by
  rw [Disk.place_joinName _ _ proper, Disk.place_joinName _ _ proper]
  exact apart.append [name] [name]

theorem Apart.beside {d : Disk} {source target : Location} (apart : Apart source target) :
    d.Beside source target :=
  fun name _ => apart.entry name

theorem Disk.at?_listed {d : Disk} {tree : Tree} {entry : String × Entry} (sound : d.Sound)
    (list : d.list source = .ok tree) (member : entry ∈ tree.entries) :
    d.root.at? (d.place source ++ [entry.1]) = some entry.2 := by
  have listed := list_eq_ok list
  rw [Tree.at?_append listed, Tree.at?_singleton]
  exact (Tree.mem_entries_iff (sound.root.at? listed)).mp member

theorem Disk.Beside.listed {d : Disk} {tree : Tree} {target : Location} {entry : String × Entry}
    (beside : d.Beside (d.place source) target) (sound : d.Sound) (list : d.list source = .ok tree)
    (member : entry ∈ tree.entries) : Apart (d.place source ++ [entry.1]) target :=
  beside entry.1 (by simp [at?_listed sound list member])

theorem folder_becomes {fate : Fate} (sparing : fate.Sparing) {entries : List (String × Entry)}
    (lists : Lists session.disk.files (session.disk.place source) entries)
    {step : String × Entry → Action Unit}
    (copies : ∀ entry ∈ entries, Copies fate source target entry (step entry))
    (sound : session.disk.Sound)
    (apart : ∀ entry ∈ entries,
      Apart (session.disk.place source ++ [entry.1]) (session.disk.place target))
    (run : (entries.forM step).run session = .ok () after) :
    session.disk.Becomes after.disk
      (transfer fate (session.disk.place source) (session.disk.place target) session.disk.files) := by
  rw [← transferOf_all sparing lists]
  exact forM_becomes copies lists.nodup sound apart lists.shown run

theorem copies_folder {fate fate' : Fate} (sparing : fate.Sparing) (sparing' : fate'.Sparing)
    {name : String} (proper : ProperName name) (content : Tree) {step : Action Unit}
    (same : ∀ next rest data old,
      fate (name :: next :: rest) (some data) old = fate' (next :: rest) (some data) old)
    (copied : ∀ session after, session.disk.Sound →
      Apart (session.disk.place (source.joinName name))
        (session.disk.place (target.joinName name)) →
      step.run session = .ok () after →
      session.disk.Becomes after.disk
        (transfer fate' (session.disk.place (source.joinName name))
          (session.disk.place (target.joinName name)) session.disk.files)) :
    Copies fate source target (name, .folder content) step := by
  intro session after sound apart shown run
  have becomes := copied session after sound
  rw [Disk.place_joinName _ _ proper, Disk.place_joinName _ _ proper] at becomes
  rw [transfer_congr (sparing.below name) sparing']
  · exact becomes (by simpa using apart.append [] [name]) run
  · intro rest data found old
    cases rest with
    | nil =>
        have absent : session.disk.files (session.disk.place source ++ [name]) = none := shown
        rw [List.append_nil, absent] at found
        cases found
    | cons next rest => exact same next rest data old

theorem copies_file {fate : Fate} (sparing : fate.Sparing) {name : String}
    (proper : ProperName name) (data : FileData) {step : Action Unit}
    (copied : ∀ session after, session.disk.Sound →
      Apart (session.disk.place (source.joinName name))
        (session.disk.place (target.joinName name)) →
      step.run session = .ok () after →
      session.disk.Becomes after.disk
        (Function.update session.disk.files (session.disk.place (target.joinName name))
          (fate [name] (session.disk.files (session.disk.place (source.joinName name)))
            (session.disk.files (session.disk.place (target.joinName name)))))) :
    Copies fate source target (name, .file data) step := by
  intro session after sound apart shown run
  have becomes := copied session after sound
  rw [Disk.place_joinName _ _ proper, Disk.place_joinName _ _ proper] at becomes
  have single : ∀ next rest, session.disk.files (session.disk.place source ++ [name] ++ next :: rest) =
      none := shown
  rw [transfer_file (sparing.below name) single]
  exact becomes (by simpa using apart.append [] [name]) run

/-! ## Files -/

namespace Copy

theorem fillFile_becomes {template : Template} (sound : session.disk.Sound)
    (run : (fillFile plan template source target).run session = .ok () after) :
    ∃ data, session.disk.files (session.disk.place source) = some data ∧
      session.disk.Becomes after.disk (Function.update session.disk.files (session.disk.place target)
        (some (.rewritten (session.disk.files (session.disk.place target))
          (plan.rewrite template data.bytes)))) := by
  obtain ⟨text, disk, read, written, rfl⟩ := fillFile_eq_ok.mp run
  obtain ⟨data, here, decoded⟩ := Disk.readText_eq_ok read
  refine ⟨data, here, ?_⟩
  rw [Plan.rewrite, decoded]
  exact Disk.writeFile_becomes sound written

theorem copyFile_becomes (sound : session.disk.Sound)
    (apart : Apart (session.disk.place source) (session.disk.place target))
    (run : (copyFile source target).run session = .ok () after) :
    ∃ data, session.disk.files (session.disk.place source) = some data ∧
      session.disk.Becomes after.disk
        (Function.update session.disk.files (session.disk.place target) (some data)) := by
  obtain ⟨disk, copied, rfl⟩ := change_eq_ok.mp run
  exact Disk.copyFile_becomes sound apart.ne copied

theorem recipeFile_copies {name : String} (proper : ProperName name) (data : FileData) :
    Copies plan.fate source target (name, .file data)
      (recipeFile plan name (source.joinName name) (target.joinName name)) := by
  apply copies_file plan.fate_sparing proper
  intro session after sound apart run
  unfold recipeFile at run
  cases route : Route.ofName name with
  | skip =>
      simp only [route, pure_eq_ok] at run
      rw [Plan.fate_skip (by rw [Route.ofPlace_single, route]), Function.update_eq_self, ← run.2]
      exact .refl sound
  | fill template =>
      simp only [route] at run
      obtain ⟨data, here, becomes⟩ := fillFile_becomes sound run
      simpa [here, Plan.fate, Route.ofPlace_single, route] using becomes
  | copy =>
      simp only [route] at run
      obtain ⟨data, here, becomes⟩ := copyFile_becomes sound apart run
      simpa [here, Plan.fate, Route.ofPlace_single, route] using becomes

theorem wholeFile_copies {name : String} (proper : ProperName name) (data : FileData) :
    Copies Fate.copied source target (name, .file data)
      (copyFile (source.joinName name) (target.joinName name)) := by
  apply copies_file Fate.copied_sparing proper
  intro session after sound apart run
  obtain ⟨data, here, becomes⟩ := copyFile_becomes sound apart run
  simpa [here, Fate.copied] using becomes

/-! ## Folders -/

theorem createFolders_becomes (sound : session.disk.Sound)
    (run : (createFolders target).run session = .ok () after) :
    session.disk.Becomes after.disk session.disk.files := by
  obtain ⟨disk, created, rfl⟩ := createFolders_eq_ok.mp run
  have becomes := Disk.createFolders_becomes sound target
  rwa [created] at becomes

theorem recipeEntry_copies {depth : Nat} {name : String} (proper : ProperName name) (entry : Entry)
    (inner : ∀ session after, session.disk.Sound →
      Apart (session.disk.place (source.joinName name)) (session.disk.place (target.joinName name)) →
      (recipeFolder plan depth (source.joinName name) (target.joinName name)).run session =
        .ok () after →
      session.disk.Becomes after.disk
        (transfer plan.fate (session.disk.place (source.joinName name))
          (session.disk.place (target.joinName name)) session.disk.files)) :
    Copies plan.fate source target (name, entry)
      (recipeEntry plan depth source target (name, entry)) := by
  cases entry with
  | file data => exact recipeFile_copies proper data
  | folder content =>
      simp only [recipeEntry, Entry.isFolder, if_true]
      split
      · next skipped =>
          apply copies_folder plan.fate_sparing Fate.spared_sparing proper
          · intro next rest data old
            apply Plan.fate_skip
            rw [Route.ofPlace_cons, if_pos skipped]
          · intro session after sound _ run
            rw [transfer_spared, ← (pure_eq_ok.mp run).2]
            exact .refl sound
      · next kept =>
          apply copies_folder plan.fate_sparing plan.fate_sparing proper
          · intro next rest data old
            rw [Plan.fate, Plan.fate, Route.ofPlace_cons, if_neg kept]
          · exact inner

theorem recipeFolder_becomes {depth : Nat} (sound : session.disk.Sound)
    (beside : session.disk.Beside (session.disk.place source) (session.disk.place target))
    (run : (recipeFolder plan depth source target).run session = .ok () after) :
    session.disk.Becomes after.disk
      (transfer plan.fate (session.disk.place source) (session.disk.place target)
        session.disk.files) := by
  induction depth generalizing source target session after with
  | zero => exact absurd run throw_ne_ok
  | succ depth ih =>
      obtain ⟨_, tree, begun, ⟨⟩, list, creating, filling⟩ := recipeFolder_eq_ok.mp run
      -- The entries were read before the target was made, which changes no files.
      have created := createFolders_becomes sound creating
      have lists := (Disk.lists_of_list sound list).perm tree.inOrder_perm
      have apart : ∀ entry ∈ tree.inOrder,
          Apart (session.disk.place source ++ [entry.1]) (session.disk.place target) :=
        fun entry member => beside.listed sound list (Tree.mem_inOrder.mp member)
      rw [← created.files, ← created.place] at lists
      rw [← created.place, ← created.place] at apart
      have becomes := folder_becomes plan.fate_sparing lists ?_ (created.sound sound) apart filling
      · rw [created.place, created.place, created.files] at becomes
        exact created.trans becomes
      · intro ⟨name, entry⟩ member
        exact recipeEntry_copies (lists.proper _ member) entry
          fun _ _ sound apart run => ih sound apart.beside run

theorem wholeFolder_becomes {depth : Nat} (sound : session.disk.Sound)
    (apart : Apart (session.disk.place source) (session.disk.place target))
    (run : (wholeFolder depth source target).run session = .ok () after) :
    session.disk.Becomes after.disk
      (transfer Fate.copied (session.disk.place source) (session.disk.place target)
        session.disk.files) := by
  induction depth generalizing source target session after with
  | zero => exact absurd run throw_ne_ok
  | succ depth ih =>
      obtain ⟨_, begun, tree, ⟨⟩, creating, list, filling⟩ := wholeFolder_eq_ok.mp run
      have created := createFolders_becomes sound creating
      have lists := Disk.lists_of_list (created.sound sound) list
      rw [← created.place, ← created.place] at apart
      have becomes := folder_becomes Fate.copied_sparing lists ?_ (created.sound sound)
        (fun entry _ => apart.entry entry.1) filling
      · rw [created.place, created.place, created.files] at becomes
        exact created.trans becomes
      · intro ⟨name, entry⟩ member
        have proper : ProperName name := lists.proper _ member
        cases entry with
        | file data => exact wholeFile_copies proper data
        | folder content =>
            apply copies_folder Fate.copied_sparing Fate.copied_sparing proper
            · intro next rest data old
              rfl
            · exact fun _ _ sound apart run => ih sound apart run

@[simp] theorem parts_rootTarget (destination : Path) :
    (rootTarget destination).parts = destination.parts := by
  rw [rootTarget, Path.joinName, Path.parts_join Path.isAbsolute_empty, Path.parts_empty, List.append_nil]

@[simp] theorem isAbsolute_rootTarget (destination : Path) :
    (rootTarget destination).isAbsolute = destination.isAbsolute :=
  Path.isAbsolute_join Path.isAbsolute_empty

theorem place_rootTarget (d : Disk) (destination : Path) :
    d.place (rootTarget destination) = d.place destination := by
  rw [rootTarget, Path.joinName, Disk.place_join _ Path.isAbsolute_empty, Path.parts_empty, follow]

theorem recipe_becomes {destination : Path} (sound : session.disk.Sound)
    (apart : Apart (session.disk.place source) (session.disk.place destination))
    (run : (recipe plan source destination).run session = .ok () after) :
    session.disk.Becomes after.disk
      (transfer plan.fate (session.disk.place source) (session.disk.place destination)
        session.disk.files) := by
  rw [recipe_run] at run
  rw [← place_rootTarget _ destination] at apart ⊢
  exact recipeFolder_becomes sound apart.beside run

theorem whole_becomes {destination : Path} (sound : session.disk.Sound)
    (apart : Apart (session.disk.place source) (session.disk.place destination))
    (run : (whole source destination).run session = .ok () after) :
    session.disk.Becomes after.disk
      (transfer Fate.copied (session.disk.place source) (session.disk.place destination)
        session.disk.files) := by
  rw [whole_run] at run
  rw [← place_rootTarget _ destination] at apart ⊢
  exact wholeFolder_becomes sound apart run

end Copy

end Cookbook
