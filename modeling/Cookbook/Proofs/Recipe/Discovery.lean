import Cookbook.Proofs.Disk.Files
import Cookbook.Recipe.Discovery

/-!
The recipes that are found below a folder: each is a folder in it, or in one of those, and holds a
descriptor.
-/

namespace Cookbook

theorem isHidden_iff {name : String} : isHidden name = true ↔ name.toList.head? = some '.' := by
  rw [isHidden, String.front?_eq, decide_eq_true_iff]

namespace Tree

variable {tree inner : Tree} {name step : String} {data : FileData} {entry : Entry} {place : Location}

theorem Sound.names (sound : tree.Sound) (found : tree.at? place = some entry) :
    ∀ name ∈ place, ProperName name := by
  induction place generalizing tree with
  | nil => exact List.forall_mem_nil _
  | cons name place ih =>
      rw [Tree.at?] at found
      rw [List.forall_mem_cons]
      split at found
      · next content inside =>
          obtain ⟨proper, contentSound⟩ := sound.of_get? inside
          exact ⟨proper, ih contentSound found⟩
      · next data inside =>
          split at found
          · next last =>
              subst last
              exact ⟨(sound.of_get? inside).1, List.forall_mem_nil _⟩
          · cases found
      · cases found

theorem at?_file_cons (rest : Tree) : (file name data rest).at? (step :: place) = some (.folder inner) ↔
    name ≠ step ∧ rest.at? (step :: place) = some (.folder inner) := by
  rw [at?, at?, get?]
  by_cases same : name = step
  · simp [same]
  · simp [same]

theorem at?_folder_cons (content rest : Tree) : (folder name content rest).at? (step :: place) =
    if name = step then content.at? place else rest.at? (step :: place) := by
  rw [at?, at?, get?]
  by_cases same : name = step
  · simp [same]
  · simp [same]

theorem at?_of_absent (absent : tree.get? step = none) : tree.at? (step :: place) = none := by
  rw [at?, absent]

/-- That there is a folder at a place below the top, and none of the names that lead there starts with
a dot. -/
structure Unhidden (tree : Tree) (place : Location) (inner : Tree) : Prop where
  below : place ≠ []
  shown : ∀ name ∈ place, name.toList.head? ≠ some '.'
  leads : tree.at? place = some (.folder inner)

theorem unhidden_cons : tree.Unhidden (step :: place) inner ↔
    (∀ name ∈ step :: place, name.toList.head? ≠ some '.') ∧
      tree.at? (step :: place) = some (.folder inner) :=
  ⟨fun visible => ⟨visible.shown, visible.leads⟩, fun ⟨shown, leads⟩ => ⟨List.cons_ne_nil _ _, shown, leads⟩⟩

theorem unhidden_folder_cons {content rest : Tree} (once : rest.get? name = none) :
    (folder name content rest).Unhidden place inner ↔
      (isHidden name = false ∧ (place = [name] ∧ inner = content ∨
        ∃ below, place = name :: below ∧ content.Unhidden below inner)) ∨
      rest.Unhidden place inner := by
  constructor
  · rintro ⟨below, shown, leads⟩
    cases place with
    | nil => exact absurd rfl below
    | cons step place =>
        rw [at?_folder_cons] at leads
        split at leads
        · next same =>
            subst same
            obtain ⟨first, shown⟩ := List.forall_mem_cons.mp shown
            refine .inl ⟨Bool.eq_false_iff.mpr (mt isHidden_iff.mp first), ?_⟩
            by_cases last : place = []
            · subst last
              cases leads
              exact .inl ⟨rfl, rfl⟩
            · exact .inr ⟨place, rfl, last, shown, leads⟩
        · exact .inr ⟨below, shown, leads⟩
  · have first (shown : isHidden name = false) : name.toList.head? ≠ some '.' :=
      mt isHidden_iff.mpr (Bool.eq_false_iff.mp shown)
    rintro (⟨shown, ⟨rfl, rfl⟩ | ⟨below, rfl, inside⟩⟩ | later)
    · exact ⟨List.cons_ne_nil _ _, by simpa using first shown, by simp [at?, get?]⟩
    · refine ⟨List.cons_ne_nil _ _, List.forall_mem_cons.mpr ⟨first shown, inside.shown⟩, ?_⟩
      rw [at?_folder_cons, if_pos rfl, inside.leads]
    · cases place with
      | nil => exact absurd rfl later.below
      | cons step place =>
          refine ⟨later.below, later.shown, ?_⟩
          rw [at?_folder_cons, if_neg, later.leads]
          rintro rfl
          have leads := later.leads
          rw [at?_of_absent once] at leads
          cases leads

theorem unhidden_file_cons {rest : Tree} (once : rest.get? name = none) :
    (file name data rest).Unhidden place inner ↔ rest.Unhidden place inner := by
  cases place with
  | nil => exact iff_of_false (fun visible => visible.below rfl) fun visible => visible.below rfl
  | cons step place =>
      rw [unhidden_cons, unhidden_cons, at?_file_cons]
      refine and_congr_right fun _ => and_iff_right_of_imp ?_
      rintro leads rfl
      rw [at?_of_absent once] at leads
      cases leads

theorem mem_visibleFolders (sound : tree.Sound) :
    (place, inner) ∈ tree.visibleFolders ↔ tree.Unhidden place inner := by
  induction tree generalizing place inner with
  | empty =>
      refine iff_of_false List.not_mem_nil ?_
      rintro ⟨below, -, leads⟩
      cases place with
      | nil => exact below rfl
      | cons step place => cases leads
  | file name data rest ih =>
      obtain ⟨-, once, restSound⟩ := sound
      rw [visibleFolders, ih restSound, unhidden_file_cons once]
  | folder name content rest contentIh restIh =>
      obtain ⟨-, once, contentSound, restSound⟩ := sound
      rw [visibleFolders, List.mem_append, restIh restSound, unhidden_folder_cons once]
      refine or_congr_left' fun _ => ?_
      split
      · next hidden => simp [hidden]
      · next shown =>
          rw [Bool.not_eq_true] at shown
          simp only [shown, true_and, List.mem_cons, List.mem_map, Prod.exists, Prod.mk.injEq,
            contentIh contentSound]
          refine or_congr_right ⟨?_, ?_⟩
          · rintro ⟨below, _, inside, rfl, rfl⟩
            exact ⟨below, rfl, inside⟩
          · rintro ⟨below, rfl, inside⟩
            exact ⟨below, inner, inside, rfl, rfl⟩

end Tree

theorem Disk.place_joinNames (d : Disk) (p : Path) {names : List String}
    (proper : ∀ name ∈ names, ProperName name) : d.place (p.joinNames names) = d.place p ++ names := by
  induction names generalizing p with
  | nil => simp [Path.joinNames]
  | cons name names ih =>
      rw [List.forall_mem_cons] at proper
      show d.place ((p.joinName name).joinNames names) = _
      rw [ih _ proper.2, place_joinName d p proper.1, List.append_assoc, List.singleton_append]

theorem Path.proper_name_joinNames (p : Path) {names : List String} (nonempty : names ≠ [])
    (proper : ∀ name ∈ names, ProperName name) :
    ProperName (p.joinNames names).name := by
  obtain ⟨front, last, rfl⟩ : ∃ front last, names = front ++ [last] :=
    ⟨_, _, (List.dropLast_concat_getLast nonempty).symm⟩
  have lastProper : ProperName last := proper last (by simp)
  have named : (p.joinNames (front ++ [last])).name = last := by
    rw [joinNames, List.foldl_append]
    exact name_joinName _ lastProper
  rwa [named]

variable {d : Disk} {root folder : Path} {folders : List Path}

theorem mem_findRecipes (sound : d.Sound) (found : findRecipes d root = .ok folders)
    (member : folder ∈ folders) :
    ∃ names, names ≠ [] ∧ (∀ name ∈ names, ProperName name) ∧ folder = root.joinNames names ∧
      d.files (d.place folder ++ [Descriptor.fileName]) ≠ none := by
  unfold findRecipes at found
  split at found
  · next tree entry =>
      dsimp only at found
      split at found
      · cases found
      · cases found
        rw [List.mem_map] at member
        obtain ⟨⟨path, inner⟩, inside, rfl⟩ := member
        rw [List.mem_filter, List.mem_map] at inside
        obtain ⟨⟨⟨names, content⟩, sorted, same⟩, holds⟩ := inside
        cases same
        have there := Disk.entry_eq_ok entry
        have treeSound : tree.Sound := sound.root.at? there
        obtain ⟨nonempty, -, below⟩ :=
          (Tree.mem_visibleFolders treeSound).mp ((sortBy_perm _ _).mem_iff.mp sorted)
        have proper := treeSound.names below
        refine ⟨names, nonempty, proper, rfl, ?_⟩
        rw [d.place_joinNames root proper, Disk.files, List.append_assoc, Tree.fileAt?_append there,
          Tree.fileAt?_append below]
        simp only [Bool.and_eq_true] at holds
        have descriptor := holds.1
        unfold Tree.holdsDescriptor at descriptor
        split at descriptor
        · next data here => simp [Tree.fileAt?, here]
        · cases descriptor
  · cases found

/-- That all folders below another one that are not hidden have paths that can be used. -/
def Disk.Walkable (d : Disk) (root : Path) : Prop :=
  ∀ tree, d.entry root = .ok (.folder tree) →
    ∀ below ∈ tree.visibleFolders, d.refuse? (root.joinNames below.1) = none

theorem findRecipes_ok_iff (folder : d.isFolder root = true) :
    (∃ recipes, findRecipes d root = .ok recipes) ↔ d.Walkable root := by
  obtain ⟨tree, entry⟩ := Disk.isFolder_iff_entry.mp folder
  have perm := sortBy_perm (fun first second => first.1.comesBefore second.1) tree.visibleFolders
  have walkable : d.Walkable root ↔
      ∀ below ∈ tree.visibleFolders, d.refuse? (root.joinNames below.1) = none := by
    simp [Disk.Walkable, entry]
  rw [walkable]
  simp only [findRecipes, entry]
  constructor
  · rintro ⟨recipes, found⟩ below member
    split at found
    · cases found
    · next usable =>
        have accepted := List.find?_eq_none.mp usable (root.joinNames below.1, below.2)
          (List.mem_map.mpr ⟨below, perm.mem_iff.mpr member, rfl⟩)
        simpa using accepted
  · intro usable
    split
    · next path inner blocked =>
        have blocked_ := List.find?_some blocked
        obtain ⟨below, member, same⟩ := List.mem_map.mp (List.mem_of_find?_eq_some blocked)
        cases same
        rw [usable below (perm.mem_iff.mp member)] at blocked_
        cases blocked_
    · exact ⟨_, rfl⟩

end Cookbook
