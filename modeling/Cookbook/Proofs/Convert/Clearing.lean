import Cookbook.Convert.Conversion
import Cookbook.Proofs.Disk.Ways

/-!
Clearing destinations. What clearing deletes is what a folder shows, and it leaves the disk as it was
exactly if there is nothing to delete.
-/

namespace Cookbook

open Action

variable {session after : Session} {folder : Path}

theorem clearEntry_eq_ok {name : String} :
    (clearEntry folder name).run session = .ok () after ↔
      if isHidden name then session = after
      else ∃ disk, session.disk.remove (folder.joinName name) = .ok disk ∧
        { session with disk } = after := by
  unfold clearEntry
  by_cases hidden : isHidden name = true
  · simp [hidden]
  · simp [hidden, change_eq_ok]

theorem clearFolder_eq_ok :
    (clearFolder folder).run session = .ok () after ↔
      ∃ tree, session.disk.list folder = .ok tree ∧
        (tree.entries.forM fun (name, _) => clearEntry folder name).run session = .ok () after := by
  simp only [clearFolder, bind_eq_ok, look_eq_ok]
  constructor
  · rintro ⟨tree, _, ⟨list, rfl⟩, clearing⟩
    exact ⟨tree, list, clearing⟩
  · rintro ⟨tree, list, clearing⟩
    exact ⟨tree, session, ⟨list, rfl⟩, clearing⟩

theorem clearEntries_size {entries : List (String × Entry)}
    (run : (entries.forM fun (name, _) => clearEntry folder name).run session = .ok () after) :
    (∀ entry ∈ entries, isHidden entry.1 = true) ∧ session = after ∨
      (∃ entry ∈ entries, isHidden entry.1 = false) ∧
        after.disk.root.size < session.disk.root.size := by
  induction entries generalizing session with
  | nil => exact .inl ⟨by simp, forM_nil_eq_ok.mp run⟩
  | cons entry entries ih =>
      obtain ⟨between, first, rest⟩ := forM_cons_eq_ok.mp run
      rw [clearEntry_eq_ok] at first
      split at first
      · next hidden =>
          subst first
          obtain ⟨allHidden, same⟩ | ⟨⟨shown, member, visible⟩, less⟩ := ih rest
          · exact .inl ⟨List.forall_mem_cons.mpr ⟨hidden, allHidden⟩, same⟩
          · exact .inr ⟨⟨shown, List.mem_cons_of_mem _ member, visible⟩, less⟩
      · next visible =>
          obtain ⟨disk, removed, rfl⟩ := first
          -- Nothing that follows makes up for what is lost here.
          have removedLess : disk.root.size < session.disk.root.size := Disk.size_remove removed
          refine .inr ⟨⟨entry, List.mem_cons_self, by simpa using visible⟩, ?_⟩
          obtain ⟨-, rfl⟩ | ⟨-, less⟩ := ih rest
          · exact removedLess
          · exact Nat.lt_trans less removedLess

theorem clearFolder_same_iff (run : (clearFolder folder).run session = .ok () after) :
    after.disk = session.disk ↔ ∀ tree, session.disk.list folder = .ok tree →
      ∀ entry ∈ tree.entries, isHidden entry.1 = true := by
  obtain ⟨tree, list, clearing⟩ := clearFolder_eq_ok.mp run
  obtain ⟨hidden, rfl⟩ | ⟨⟨entry, member, visible⟩, less⟩ := clearEntries_size clearing
  · simpa [list] using hidden
  · constructor
    · intro same
      rw [same] at less
      exact absurd less (Nat.lt_irrefl _)
    · intro hidden
      rw [hidden tree list entry member] at visible
      cases visible

/-- Whether clearing a folder of these entries deletes what is at a place. -/
def Clears (folder : Location) (entries : List (String × Entry)) (place : Location) : Prop :=
  ∃ entry ∈ entries, isHidden entry.1 = false ∧ folder ++ [entry.1] <+: place

instance (folder : Location) (entries : List (String × Entry)) :
    DecidablePred (Clears folder entries) :=
  fun _ => inferInstanceAs (Decidable (∃ entry ∈ entries, _ ∧ _))

theorem clears_cons {folder place : Location} {entry : String × Entry}
    {entries : List (String × Entry)} :
    Clears folder (entry :: entries) place ↔
      isHidden entry.1 = false ∧ folder ++ [entry.1] <+: place ∨ Clears folder entries place := by
  simp [Clears]

theorem clearEntries_becomes {entries : List (String × Entry)} (sound : session.disk.Sound)
    (proper : ∀ entry ∈ entries, ProperName entry.1)
    (run : (entries.forM fun (name, _) => clearEntry folder name).run session = .ok () after) :
    session.disk.Becomes after.disk fun place =>
      if Clears (session.disk.place folder) entries place then none else session.disk.files place := by
  induction entries generalizing session with
  | nil =>
      rw [forM_nil_eq_ok] at run
      subst run
      simpa [Clears] using Disk.Becomes.refl sound
  | cons entry entries ih =>
      obtain ⟨between, first, rest⟩ := forM_cons_eq_ok.mp run
      obtain ⟨entryProper, restProper⟩ := List.forall_mem_cons.mp proper
      rw [clearEntry_eq_ok] at first
      split at first
      · next hidden =>
          subst first
          exact (ih sound restProper rest).congr fun _ => by simp [clears_cons, hidden]
      · next visible =>
          obtain ⟨disk, removed, rfl⟩ := first
          have step := Disk.remove_becomes sound removed
          have becomes := ih (step.sound sound) restProper rest
          refine (step.trans becomes).congr fun place => ?_
          rw [step.place, step.files, Disk.place_joinName _ _ entryProper]
          by_cases later : Clears (session.disk.place folder) entries place
          · simp [clears_cons, later]
          · simp [clears_cons, later, visible]

theorem clearFolder_becomes (sound : session.disk.Sound)
    (run : (clearFolder folder).run session = .ok () after) :
    ∃ tree, session.disk.list folder = .ok tree ∧ session.disk.Becomes after.disk fun place =>
      if Clears (session.disk.place folder) tree.entries place then none
      else session.disk.files place := by
  obtain ⟨tree, list, clearing⟩ := clearFolder_eq_ok.mp run
  have treeSound : tree.Sound := sound.root.at? (Disk.list_eq_ok list)
  refine ⟨tree, list, clearEntries_becomes sound ?_ clearing⟩
  intro entry member
  exact (treeSound.of_get? ((Tree.mem_entries_iff treeSound).mp member)).1

theorem clearEntries_folders {entries : List (String × Entry)} (sound : session.disk.Sound)
    (proper : ∀ entry ∈ entries, ProperName entry.1)
    (run : (entries.forM fun (name, _) => clearEntry folder name).run session = .ok () after)
    (place : Location) :
    after.disk.root.HasFolder place ↔
      session.disk.root.HasFolder place ∧ ¬ Clears (session.disk.place folder) entries place := by
  induction entries generalizing session with
  | nil =>
      rw [forM_nil_eq_ok] at run
      subst run
      simp [Clears]
  | cons entry entries ih =>
      obtain ⟨between, first, rest⟩ := forM_cons_eq_ok.mp run
      obtain ⟨entryProper, restProper⟩ := List.forall_mem_cons.mp proper
      rw [clearEntry_eq_ok] at first
      split at first
      · next hidden =>
          subst first
          rw [ih sound restProper rest]
          simp [clears_cons, hidden]
      · next visible =>
          obtain ⟨disk, removed, rfl⟩ := first
          have step := Disk.remove_becomes sound removed
          rw [ih (step.sound sound) restProper rest, Disk.remove_hasFolder sound removed, step.place,
            Disk.place_joinName _ _ entryProper, clears_cons, not_or, and_assoc]
          simp [visible]

/-! ## What is left -/

namespace Disk

variable {d made : Disk}

/-- That a place is in an entry of a folder that is not hidden. -/
def ShownIn (d : Disk) (folder : Path) (place : Location) : Prop :=
  ∃ name, isHidden name = false ∧ d.place folder ++ [name] <+: place

/-- That a disk is another one without what a folder shows. -/
structure Cleared (folder : Path) (d made : Disk) : Prop where
  becomes : d.Becomes made made.files
  gone : ∀ place, d.ShownIn folder place → made.files place = none
  files : ∀ place, ¬ d.ShownIn folder place → made.files place = d.files place
  folders : ∀ place, made.root.HasFolder place ↔ d.root.HasFolder place ∧ ¬ d.ShownIn folder place

theorem Cleared.of_nothing (sound : d.Sound) (nothing : ∀ place, d.ShownIn folder place →
    d.files place = none ∧ ¬ d.root.HasFolder place) : Cleared folder d d where
  becomes := .refl sound
  gone place shown := (nothing place shown).1
  files _ _ := rfl
  folders place := (and_iff_left_of_imp fun there shown => (nothing place shown).2 there).symm

theorem clears_iff_shownIn {tree : Tree} (sound : d.Sound) (list : d.list folder = .ok tree)
    {place : Location} (there : d.files place ≠ none ∨ d.root.HasFolder place) :
    Clears (d.place folder) tree.entries place ↔ d.ShownIn folder place := by
  constructor
  · rintro ⟨entry, -, visible, below⟩
    exact ⟨entry.1, visible, below⟩
  · rintro ⟨name, visible, below⟩
    by_contra unlisted
    have absent : ∀ entry ∈ tree.entries, entry.1 ≠ name := by
      rintro entry member rfl
      exact unlisted ⟨entry, member, visible, below⟩
    obtain file | folder_ := there
    · exact file (files_of_unlisted sound list absent below)
    · exact folders_of_unlisted sound list absent below folder_

end Disk

theorem clearFolder_cleared (sound : session.disk.Sound)
    (run : (clearFolder folder).run session = .ok () after) :
    session.disk.Cleared folder after.disk := by
  obtain ⟨tree, list, clearing⟩ := clearFolder_eq_ok.mp run
  have treeSound : tree.Sound := sound.root.at? (Disk.list_eq_ok list)
  have proper : ∀ entry ∈ tree.entries, ProperName entry.1 := fun entry member =>
    (treeSound.of_get? ((Tree.mem_entries_iff treeSound).mp member)).1
  have becomes := clearEntries_becomes sound proper clearing
  have same {place : Location} (there : session.disk.files place ≠ none ∨
      session.disk.root.HasFolder place) := Disk.clears_iff_shownIn sound list there
  refine ⟨becomes.own, ?_, ?_, ?_⟩
  · intro place shown
    rw [becomes.files]
    dsimp only
    split
    · rfl
    · next spared =>
        by_contra there
        exact spared ((same (.inl there)).mpr shown)
  · intro place hidden
    rw [becomes.files]
    exact if_neg fun ⟨entry, _, visible, below⟩ => hidden ⟨entry.1, visible, below⟩
  · intro place
    rw [clearEntries_folders sound proper clearing]
    exact and_congr_right fun there => not_congr (same (.inr there))

namespace Converter

variable {converter : Converter} {destination : Path}

/-- What is done to a destination is told by whether it is a file, and else by what it lists. -/
theorem clearDestination_run (converter : Converter) (destination : Path) (session : Session) :
    (converter.clearDestination destination).run session =
      if session.disk.isFile destination then .error (.notAFolder destination) session
      else match session.disk.list destination with
        | .error _ => .ok () session
        | .ok tree =>
            if tree.entries.isEmpty then .ok () session
            else if converter.overwrite then (clearFolder destination).run session
            else .error (.destinationNotEmpty destination) session := by
  have asked : (isFile destination).run session = .ok (session.disk.isFile destination) session := rfl
  have looked : (isFolder destination).run session = .ok (session.disk.isFolder destination) session :=
    rfl
  unfold clearDestination
  rw [run_bind_of_ok asked]
  cases session.disk.isFile destination with
  | true => rfl
  | false =>
      simp only [Bool.false_eq_true, if_false]
      rw [run_bind_of_ok looked]
      cases list : session.disk.list destination with
      | error fault =>
          have noFolder : session.disk.isFolder destination = false := by
            rw [Bool.eq_false_iff]
            intro folder
            obtain ⟨tree, listed⟩ := Disk.list_of_isFolder folder
            rw [list] at listed
            cases listed
          rw [noFolder]
          rfl
      | ok tree =>
          have shown : isEmptyFolder session.disk destination false = .ok tree.entries.isEmpty := by
            rw [isEmptyFolder, list]
            cases entries : tree.entries <;> simp [Except.map, entries]
          rw [Disk.isFolder_of_list list, if_pos rfl, run_bind_of_ok (look_eq_ok.mpr ⟨shown, rfl⟩)]
          dsimp only
          cases tree.entries.isEmpty with
          | true => rfl
          | false => cases overwrite : converter.overwrite <;> rfl

theorem keeps_clearDestination {relation : Session → Session → Prop} [IsPreorder Session relation]
    (clearing : converter.overwrite = true → Keeps relation (clearFolder destination)) :
    Keeps relation (converter.clearDestination destination) := by
  unfold clearDestination
  refine keeps_throwIf (keeps_isFile _) ?_
  refine keeps_bind (keeps_isFolder _) ?_
  intro present
  split
  · refine keeps_bind (keeps_look _ _) ?_
    intro empty
    split
    · split
      · next overwrite => exact clearing overwrite
      · exact keeps_throw _
    · exact keeps_pure ()
  · exact keeps_pure ()

theorem clearDestination_eq_ok
    (run : (converter.clearDestination destination).run session = .ok () after) :
    (session = after ∧ ∀ tree, session.disk.list destination = .ok tree → tree.entries = []) ∨
      converter.overwrite = true ∧ (clearFolder destination).run session = .ok () after := by
  rw [clearDestination_run] at run
  split at run
  · cases run
  · split at run
    · next list =>
        cases run
        exact .inl ⟨rfl, fun tree other => by rw [list] at other; cases other⟩
    · next tree list =>
        split at run
        · next empty =>
            cases run
            refine .inl ⟨rfl, fun other listed => ?_⟩
            rw [list] at listed
            cases listed
            exact List.isEmpty_iff.mp empty
        · split at run
          · next overwrite => exact .inr ⟨overwrite, run⟩
          · cases run

theorem clearDestination_cleared (sound : session.disk.Sound)
    (ready : session.disk.isFolder destination = true ∨
      session.disk.root.at? (session.disk.place destination) = none)
    (run : (converter.clearDestination destination).run session = .ok () after) :
    session.disk.Cleared destination after.disk := by
  obtain ⟨rfl, empty⟩ | ⟨-, clear⟩ := clearDestination_eq_ok run
  · refine .of_nothing sound ?_
    rintro place ⟨name, -, below⟩
    obtain folder | absent := ready
    · obtain ⟨tree, list⟩ := Disk.list_of_isFolder folder
      have unlisted : ∀ entry ∈ tree.entries, entry.1 ≠ name := by
        rw [empty tree list]
        exact List.forall_mem_nil _
      exact ⟨Disk.files_of_unlisted sound list unlisted below,
        Disk.folders_of_unlisted sound list unlisted below⟩
    · obtain ⟨rest, rfl⟩ := (List.prefix_append _ _).trans below
      refine ⟨Tree.fileAt?_absent absent rest, ?_⟩
      intro there
      obtain ⟨content, found⟩ := there.of_append
      rw [absent] at found
      cases found
  · exact clearFolder_cleared sound clear

theorem clearDestination_becomes (sound : session.disk.Sound)
    (new : ∀ rest, session.disk.files (session.disk.place destination ++ rest) = none)
    (run : (converter.clearDestination destination).run session = .ok () after) :
    session.disk.Becomes after.disk session.disk.files := by
  obtain ⟨rfl, -⟩ | ⟨-, clear⟩ := clearDestination_eq_ok run
  · exact .refl sound
  · obtain ⟨tree, -, becomes⟩ := clearFolder_becomes sound clear
    refine becomes.congr fun place => ?_
    split
    · next clears =>
        obtain ⟨entry, -, -, below⟩ := clears
        obtain ⟨rest, rfl⟩ := (List.prefix_append _ [entry.1]).trans below
        rw [new]
    · rfl

end Converter

end Cookbook
