import Cookbook.Proofs.Disk.Place
import Mathlib.Logic.Function.Basic

/-!
Sound trees and the files in them. A tree is sound if each folder has every name once and names are
such that paths can lead to them. What matters about a tree is mostly which files are where, and each
change of a tree is told by what it does to these.
-/

namespace Cookbook
namespace Tree

/-- That names are proper, and occur once in a folder. -/
def Sound : Tree → Prop
  | empty => True
  | file name _ rest => ProperName name ∧ rest.get? name = none ∧ rest.Sound
  | folder name content rest =>
      ProperName name ∧ rest.get? name = none ∧ content.Sound ∧ rest.Sound

instance Sound.decidable : (tree : Tree) → Decidable tree.Sound
  | empty => isTrue trivial
  | file _ _ rest =>
      have := Sound.decidable rest
      inferInstanceAs (Decidable (_ ∧ _))
  | folder _ content rest =>
      have := Sound.decidable content
      have := Sound.decidable rest
      inferInstanceAs (Decidable (_ ∧ _))

end Tree

def Entry.Sound : Entry → Prop
  | .file _ => True
  | .folder content => content.Sound

namespace Tree

def fileAt? : Tree → Location → Option FileData
  | _, [] => none
  | tree, name :: place => match tree.get? name with
    | some (.folder content) => content.fileAt? place
    | some (.file data) => if place = [] then some data else none
    | none => none

variable {tree content : Tree} {name wanted : String} {entry : Entry} {above place : Location}

/-! ## Entry by entry -/

@[elab_as_elim]
theorem cons_induction {motive : Tree → Prop} (tree : Tree) (empty : motive empty)
    (cons : ∀ name entry rest, motive rest → motive (cons name entry rest)) : motive tree := by
  induction tree with
  | empty => exact empty
  | file name data rest ih => exact cons name (.file data) rest ih
  | folder name content rest _ ih => exact cons name (.folder content) rest ih

theorem get?_cons (rest : Tree) :
    (cons name entry rest).get? wanted = if name = wanted then some entry else rest.get? wanted := by
  cases entry <;> rfl

theorem entries_cons (rest : Tree) : (cons name entry rest).entries = (name, entry) :: rest.entries := by
  cases entry <;> rfl

theorem set_cons (new : Entry) (rest : Tree) :
    (cons name entry rest).set wanted new =
      if name = wanted then cons wanted new rest else cons name entry (rest.set wanted new) := by
  cases entry <;> rfl

theorem erase_cons (rest : Tree) :
    (cons name entry rest).erase wanted =
      if name = wanted then rest else cons name entry (rest.erase wanted) := by
  cases entry <;> rfl

theorem sound_cons {rest : Tree} :
    (cons name entry rest).Sound ↔
      ProperName name ∧ rest.get? name = none ∧ entry.Sound ∧ rest.Sound := by
  cases entry with
  | file data => simp [cons, Sound, Entry.Sound]
  | folder content => simp [cons, Sound, Entry.Sound]

theorem mem_entries_iff (sound : tree.Sound) :
    (name, entry) ∈ tree.entries ↔ tree.get? name = some entry := by
  induction tree using cons_induction with
  | empty => simp [entries, get?]
  | cons other first rest ih =>
      obtain ⟨-, once, -, restSound⟩ := sound_cons.mp sound
      rw [entries_cons, List.mem_cons, ih restSound, get?_cons, Prod.mk.injEq]
      by_cases same : other = name
      · subst same
        simp [once, eq_comm]
      · simp [same, Ne.symm same]

theorem Sound.of_get? (sound : tree.Sound) (found : tree.get? name = some entry) :
    ProperName name ∧ entry.Sound := by
  induction tree using cons_induction with
  | empty => simp [get?] at found
  | cons other first rest ih =>
      obtain ⟨proper, -, firstSound, restSound⟩ := sound_cons.mp sound
      rw [get?_cons] at found
      split at found
      · next same =>
          cases found
          exact ⟨same ▸ proper, firstSound⟩
      · exact ih restSound found

theorem entries_nodup (sound : tree.Sound) : (tree.entries.map (·.1)).Nodup := by
  induction tree using cons_induction with
  | empty => simp [entries]
  | cons name first rest ih =>
      obtain ⟨-, once, -, restSound⟩ := sound_cons.mp sound
      rw [entries_cons, List.map_cons, List.nodup_cons]
      refine ⟨?_, ih restSound⟩
      intro member
      obtain ⟨⟨_, entry⟩, inside, rfl⟩ := List.mem_map.mp member
      rw [mem_entries_iff restSound, once] at inside
      cases inside

theorem get?_erase (sound : tree.Sound) :
    (tree.erase name).get? wanted = if name = wanted then none else tree.get? wanted := by
  induction tree using cons_induction with
  | empty => simp [erase, get?]
  | cons other first rest ih =>
      obtain ⟨-, once, -, restSound⟩ := sound_cons.mp sound
      rw [erase_cons, get?_cons]
      by_cases erased : other = name
      · subst erased
        by_cases same : other = wanted
        · subst same
          simp [once]
        · simp [same]
      · by_cases same : other = wanted
        · subst same
          simp [erased, Ne.symm erased]
        · simp [get?_cons, erased, same, ih restSound]

theorem Sound.set (sound : tree.Sound) (proper : ProperName name) (entrySound : entry.Sound) :
    (tree.set name entry).Sound := by
  induction tree using cons_induction with
  | empty => exact sound_cons.mpr ⟨proper, rfl, entrySound, trivial⟩
  | cons other first rest ih =>
      obtain ⟨otherProper, once, firstSound, restSound⟩ := sound_cons.mp sound
      rw [set_cons]
      split
      · next same => exact sound_cons.mpr ⟨proper, same ▸ once, entrySound, restSound⟩
      · next other_ =>
          rw [← get?_set_of_ne other_ entry] at once
          exact sound_cons.mpr ⟨otherProper, once, firstSound, ih restSound⟩

theorem Sound.erase (sound : tree.Sound) : (tree.erase name).Sound := by
  induction tree using cons_induction with
  | empty => trivial
  | cons other first rest ih =>
      obtain ⟨proper, once, firstSound, restSound⟩ := sound_cons.mp sound
      rw [erase_cons]
      split
      · exact restSound
      · refine sound_cons.mpr ⟨proper, ?_, firstSound, ih restSound⟩
        rw [get?_erase restSound, once, ite_self]

/-! ## Places -/

theorem Sound.at? (sound : tree.Sound) (found : tree.at? place = some entry) : entry.Sound := by
  induction place generalizing tree with
  | nil =>
      cases found
      exact sound
  | cons name place ih =>
      rw [Tree.at?] at found
      split at found
      · next content inside => exact ih (sound.of_get? inside).2 found
      · next data inside =>
          split at found
          · cases found
            trivial
          · cases found
      · cases found

theorem Sound.change {f : Tree → Tree} (sound : tree.Sound)
    (keeps : ∀ content : Tree, content.Sound → (f content).Sound) :
    (tree.change f above).Sound := by
  induction above generalizing tree with
  | nil => exact keeps tree sound
  | cons name above ih =>
      rw [Tree.change]
      split
      · next content inside =>
          obtain ⟨proper, contentSound⟩ := sound.of_get? inside
          exact sound.set proper (ih contentSound)
      · exact sound

theorem at?_change (found : tree.at? above = some (.folder content)) (f : Tree → Tree) :
    (tree.change f above).at? above = some (.folder (f content)) := by
  induction above generalizing tree with
  | nil =>
      cases found
      rfl
  | cons name above ih =>
      rw [Tree.at?] at found
      split at found
      · next inner inside => simp [Tree.change, Tree.at?, inside, ih found]
      · next data inside => split at found <;> cases found
      · cases found

/-! ## Files -/

theorem fileAt?_eq_some {data : FileData} :
    tree.fileAt? place = some data ↔ tree.at? place = some (.file data) := by
  induction place generalizing tree with
  | nil => simp [fileAt?, Tree.at?]
  | cons name place ih =>
      cases inside : tree.get? name with
      | none => simp [fileAt?, Tree.at?, inside]
      | some entry =>
          cases entry with
          | folder content => simpa [fileAt?, Tree.at?, inside] using ih
          | file other => by_cases last : place = [] <;> simp [fileAt?, Tree.at?, inside, last]

theorem fileAt?_append (found : tree.at? above = some (.folder content)) (place : Location) :
    tree.fileAt? (above ++ place) = content.fileAt? place := by
  induction above generalizing tree with
  | nil =>
      cases found
      rfl
  | cons name above ih =>
      rw [Tree.at?] at found
      split at found
      · next inner inside => simp [fileAt?, inside, ih found]
      · next data inside => split at found <;> cases found
      · cases found

theorem fileAt?_below (noFolder : ∀ content, tree.at? above ≠ some (.folder content)) {name : String}
    (place : Location) : tree.fileAt? (above ++ name :: place) = none := by
  induction above generalizing tree with
  | nil => exact absurd rfl (noFolder tree)
  | cons step above ih =>
      rw [List.cons_append, fileAt?]
      split
      · next inner inside =>
          apply ih
          intro content found
          apply noFolder content
          rw [Tree.at?, inside]
          exact found
      · simp
      · rfl

theorem fileAt?_absent (absent : tree.at? above = none) (place : Location) :
    tree.fileAt? (above ++ place) = none := by
  cases place with
  | nil =>
      rw [List.append_nil, Option.eq_none_iff_forall_ne_some]
      intro data found
      rw [fileAt?_eq_some, absent] at found
      cases found
  | cons name place => exact fileAt?_below (by simp [absent]) place

def allFiles : Tree → List (Location × FileData)
  | empty => []
  | file name data rest => ([name], data) :: rest.allFiles
  | folder name content rest =>
      content.allFiles.map (fun (place, data) => (name :: place, data)) ++ rest.allFiles

theorem mem_allFiles {data : FileData} (found : tree.fileAt? place = some data) :
    (place, data) ∈ tree.allFiles := by
  cases place with
  | nil => cases found
  | cons step place =>
      induction tree generalizing step place with
      | empty => cases found
      | file name other rest ih =>
          rw [allFiles, List.mem_cons]
          by_cases same : name = step
          · left
            simp only [fileAt?, get?, same, if_true] at found
            split at found
            · next last => simp [last, same, Option.some.inj found]
            · cases found
          · right
            apply ih
            simpa [fileAt?, get?, same] using found
      | folder name content rest contentIh ih =>
          rw [allFiles, List.mem_append, List.mem_map]
          by_cases same : name = step
          · left
            simp only [fileAt?, get?, same, if_true] at found
            cases place with
            | nil => cases found
            | cons next place => exact ⟨_, contentIh next place found, by simp [same]⟩
          · right
            apply ih
            simpa [fileAt?, get?, same] using found

theorem fileAt?_change_outside (f : Tree → Tree) (outside : ¬ above <+: place) :
    (tree.change f above).fileAt? place = tree.fileAt? place := by
  induction above generalizing tree place with
  | nil => exact absurd List.nil_prefix outside
  | cons name above ih =>
      rw [Tree.change]
      split
      · next inner inside =>
          cases place with
          | nil => rfl
          | cons step place =>
              by_cases same : step = name
              · subst same
                have apart : ¬ above <+: place := by
                  intro starts
                  exact outside (List.cons_prefix_cons.mpr ⟨rfl, starts⟩)
                simp [fileAt?, inside, ih apart]
              · simp [fileAt?, get?_set_of_ne same]
      · rfl

theorem fileAt?_set_of_ne {step : String} (other : step ≠ name) (place : Location) :
    (tree.set name entry).fileAt? (step :: place) = tree.fileAt? (step :: place) := by
  simp [fileAt?, get?_set_of_ne other]

theorem fileAt?_set_file (noFolder : ∀ inner, tree.get? name ≠ some (.folder inner))
    (data : FileData) :
    (tree.set name (.file data)).fileAt? = Function.update tree.fileAt? [name] (some data) := by
  funext place
  cases place with
  | nil => simp [fileAt?]
  | cons step place =>
      by_cases same : step = name
      · subst same
        cases place with
        | nil => simp [fileAt?]
        | cons next place =>
            have below : tree.fileAt? ([step] ++ next :: place) = none := by
              apply fileAt?_below
              intro content found
              rw [Tree.at?] at found
              split at found
              · next inner inside => exact noFolder inner inside
              · simp at found
              · cases found
            rw [List.singleton_append] at below
            rw [Function.update_of_ne (by simp), below]
            simp [fileAt?]
      · rw [fileAt?_set_of_ne same, Function.update_of_ne (by simp [same])]

theorem fileAt?_write (found : tree.at? above = some (.folder content))
    (noFolder : ∀ inner, content.get? name ≠ some (.folder inner)) (data : FileData) :
    (tree.change (·.set name (.file data)) above).fileAt? =
      Function.update tree.fileAt? (above ++ [name]) (some data) := by
  funext place
  by_cases inside : above <+: place
  · obtain ⟨rest, rfl⟩ := inside
    rw [fileAt?_append (at?_change found _), fileAt?_set_file noFolder]
    by_cases last : rest = [name]
    · simp [last]
    · rw [Function.update_of_ne last, Function.update_of_ne (by simpa using last),
        fileAt?_append found]
  · rw [fileAt?_change_outside _ inside, Function.update_of_ne]
    intro same
    exact inside (same ▸ List.prefix_append above [name])

theorem fileAt?_createFolder (found : tree.at? above = some (.folder content))
    (absent : content.get? name = none) :
    (tree.change (·.set name (.folder .empty)) above).fileAt? = tree.fileAt? := by
  funext place
  by_cases inside : above <+: place
  · obtain ⟨rest, rfl⟩ := inside
    rw [fileAt?_append (at?_change found _), fileAt?_append found]
    cases rest with
    | nil => rfl
    | cons step rest =>
        by_cases same : step = name
        · subst same
          cases rest <;> simp [fileAt?, absent, get?]
        · exact fileAt?_set_of_ne same rest
  · exact fileAt?_change_outside _ inside

theorem fileAt?_erase (found : tree.at? above = some (.folder content)) (sound : content.Sound)
    (place : Location) :
    (tree.change (·.erase name) above).fileAt? place =
      if above ++ [name] <+: place then none else tree.fileAt? place := by
  by_cases inside : above <+: place
  · obtain ⟨rest, rfl⟩ := inside
    rw [fileAt?_append (at?_change found _), fileAt?_append found]
    simp only [List.prefix_append_right_inj]
    cases rest with
    | nil => simp [fileAt?]
    | cons step rest =>
        rw [fileAt?, fileAt?, get?_erase sound]
        by_cases same : name = step
        · simp [same]
        · simp [same]
  · have outside : ¬ above ++ [name] <+: place := fun starts =>
      inside ((List.prefix_append above [name]).trans starts)
    rw [fileAt?_change_outside _ inside, if_neg outside]

/-! ## Size -/

def size : Tree → Nat
  | empty => 0
  | file _ _ rest => rest.size + 1
  | folder _ content rest => content.size + rest.size + 1

theorem size_erase (found : tree.get? name = some entry) : (tree.erase name).size < tree.size := by
  induction tree with
  | empty => cases found
  | file other data rest ih =>
      rw [get?] at found
      by_cases same : other = name
      · simp [erase, same, size]
      · simpa [erase, same, size] using ih (by simpa [same] using found)
  | folder other content rest _ ih =>
      rw [get?] at found
      by_cases same : other = name
      · simp only [erase, same, size, if_true]
        omega
      · simpa [erase, same, size] using ih (by simpa [same] using found)

theorem size_set_folder {old new : Tree} (found : tree.get? name = some (.folder old))
    (less : new.size < old.size) : (tree.set name (.folder new)).size < tree.size := by
  induction tree with
  | empty => cases found
  | file other data rest ih =>
      rw [get?] at found
      split at found
      · cases found
      · next other_ => simpa [set, other_, size] using ih found
  | folder other content rest _ ih =>
      rw [get?] at found
      split at found
      · next same =>
          cases found
          simpa [set, same, cons, size] using less
      · next other_ => simpa [set, other_, size] using ih found

theorem size_change {f : Tree → Tree} (found : tree.at? above = some (.folder content))
    (less : (f content).size < content.size) : (tree.change f above).size < tree.size := by
  induction above generalizing tree with
  | nil =>
      cases found
      exact less
  | cons name above ih =>
      rw [Tree.at?] at found
      split at found
      · next inner inside =>
          rw [Tree.change, inside]
          exact size_set_folder inside (ih found)
      · next data inside => split at found <;> cases found
      · cases found
end Tree
end Cookbook
