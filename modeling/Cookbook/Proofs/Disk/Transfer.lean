import Cookbook.Proofs.Disk.Files

/-!
Copying below places. A folder is copied entry by entry; what becomes of the files below the target is
told by a fate, and the fates of the entries make up that of the folder.
-/

namespace Cookbook

structure Apart (first second : Location) : Prop where
  above : ¬ first <+: second
  below : ¬ second <+: first

instance (first second : Location) : Decidable (Apart first second) :=
  decidable_of_iff (¬ first <+: second ∧ ¬ second <+: first)
    ⟨fun ⟨above, below⟩ => ⟨above, below⟩, fun apart => ⟨apart.above, apart.below⟩⟩

/-- What becomes of the file at a place below a folder that is copied, from what it is there and what
it is below the target. -/
abbrev Fate := Location → Option FileData → Option FileData → Option FileData

namespace Fate

/-- That what is not in the source is left as it is in the target. -/
def Sparing (fate : Fate) : Prop := ∀ place old, fate place none old = old

def below (fate : Fate) (name : String) : Fate := fun place => fate (name :: place)

theorem Sparing.below {fate : Fate} (sparing : fate.Sparing) (name : String) :
    (fate.below name).Sparing :=
  fun place => sparing (name :: place)

def spared : Fate := fun _ _ old => old

theorem spared_sparing : spared.Sparing := fun _ _ => rfl

end Fate

/-- The files after a folder was copied to another. -/
def transfer (fate : Fate) (source target : Location) (files : Location → Option FileData) :
    Location → Option FileData := fun place =>
  if target <+: place then
    let rest := place.drop target.length
    fate rest (files (source ++ rest)) (files place)
  else files place

section Transfer

variable {fate fate' : Fate} {source target place : Location} {files : Location → Option FileData}

theorem Apart.append {first second : Location} (apart : Apart first second) (rest rest' : Location) :
    Apart (first ++ rest) (second ++ rest') := by
  have distinct {first second : Location} (rest rest' : Location) (above : ¬ first <+: second)
      (below : ¬ second <+: first) : ¬ first ++ rest <+: second ++ rest' := by
    intro starts
    have firstStarts := (List.prefix_append first rest).trans starts
    obtain inside | outside :=
      List.prefix_or_prefix_of_prefix firstStarts (List.prefix_append second rest')
    · exact above inside
    · exact below outside
  exact ⟨distinct rest rest' apart.above apart.below, distinct rest' rest apart.below apart.above⟩

theorem Apart.symm {first second : Location} (apart : Apart first second) : Apart second first :=
  ⟨apart.below, apart.above⟩

theorem Apart.ne {first second : Location} (apart : Apart first second) : first ≠ second :=
  fun same => apart.above (same ▸ List.prefix_rfl)

theorem Apart.notBelow {first second : Location} (apart : Apart first second) (rest : Location) :
    ¬ second <+: first ++ rest := by
  simpa using (apart.append rest []).below

theorem apart_names {above : Location} {first second : String} (different : first ≠ second) :
    Apart (above ++ [first]) (above ++ [second]) := by
  refine ⟨?_, ?_⟩
  · simpa using different
  · simpa using different.symm

theorem Tree.at?_set_apart {tree : Tree} {above place : Location} {name : String} (entry : Entry)
    (apart : Apart place (above ++ [name])) :
    (tree.change (·.set name entry) above).at? place = tree.at? place := by
  induction above generalizing tree place with
  | nil =>
      cases place with
      | nil => exact absurd List.nil_prefix apart.above
      | cons step place =>
          have other : step ≠ name := fun same => apart.below (by simp [same])
          simp only [Tree.change, Tree.at?, Tree.get?_set_of_ne other]
  | cons first above ih =>
      rw [Tree.change]
      split
      · next content inside =>
          cases place with
          | nil => exact absurd List.nil_prefix apart.above
          | cons step place =>
              by_cases same : step = first
              · subst same
                have below : Apart place (above ++ [name]) :=
                  ⟨fun starts => apart.above (List.cons_prefix_cons.mpr ⟨rfl, starts⟩),
                    fun starts => apart.below (List.cons_prefix_cons.mpr ⟨rfl, starts⟩)⟩
                simp only [Tree.at?, Tree.get?_set_self, inside, ih below]
              · simp only [Tree.at?, Tree.get?_set_of_ne same]
      · rfl

theorem transfer_below (rest : Location) :
    transfer fate source target files (target ++ rest) =
      fate rest (files (source ++ rest)) (files (target ++ rest)) := by
  simp [transfer]

theorem transfer_outside (outside : ¬ target <+: place) :
    transfer fate source target files place = files place := by
  rw [transfer, if_neg outside]

theorem transfer_congr (sparing : fate.Sparing) (sparing' : fate'.Sparing)
    (same : ∀ rest data, files (source ++ rest) = some data → ∀ old,
      fate rest (some data) old = fate' rest (some data) old) :
    transfer fate source target files = transfer fate' source target files := by
  funext place
  by_cases inside : target <+: place
  · obtain ⟨rest, rfl⟩ := inside
    rw [transfer_below, transfer_below]
    cases found : files (source ++ rest) with
    | none => rw [sparing, sparing']
    | some data => exact same rest data found _
  · rw [transfer_outside inside, transfer_outside inside]

theorem transfer_spared : transfer Fate.spared source target files = files := by
  funext place
  simp [transfer, Fate.spared]

theorem transfer_file (sparing : fate.Sparing)
    (single : ∀ name rest, files (source ++ name :: rest) = none) :
    transfer fate source target files =
      Function.update files target (fate [] (files source) (files target)) := by
  funext place
  by_cases inside : target <+: place
  · obtain ⟨rest, rfl⟩ := inside
    rw [transfer_below]
    cases rest with
    | nil => simp
    | cons name rest =>
        rw [single, sparing, Function.update_of_ne (by simp)]
  · rw [transfer_outside inside, Function.update_of_ne]
    intro same
    exact inside (same ▸ List.prefix_rfl)

end Transfer

/-! ## Entry by entry -/

/-- That the files at and below a place are those of an entry. -/
def Shown (files : Location → Option FileData) (place : Location) : Entry → Prop
  | .folder _ => files place = none
  | .file _ => ∀ name rest, files (place ++ name :: rest) = none

theorem Shown.congr {files files' : Location → Option FileData} {place : Location} {entry : Entry}
    (shown : Shown files place entry)
    (same : ∀ rest, files' (place ++ rest) = files (place ++ rest)) : Shown files' place entry := by
  cases entry with
  | folder content =>
      have here := same []
      rw [List.append_nil] at here
      exact here.trans shown
  | file data => exact fun name rest => (same (name :: rest)).trans (shown name rest)

structure Lists (files : Location → Option FileData) (place : Location)
    (entries : List (String × Entry)) : Prop where
  proper : ∀ entry ∈ entries, ProperName entry.1
  nodup : (entries.map (·.1)).Nodup
  shown : ∀ entry ∈ entries, Shown files (place ++ [entry.1]) entry.2
  complete : ∀ rest, files (place ++ rest) ≠ none → ∃ entry ∈ entries, [entry.1] <+: rest

theorem Lists.perm {files : Location → Option FileData} {place : Location}
    {entries entries' : List (String × Entry)} (lists : Lists files place entries)
    (perm : entries'.Perm entries) : Lists files place entries' where
  proper entry member := lists.proper entry (perm.mem_iff.mp member)
  nodup := (perm.map _).nodup_iff.mpr lists.nodup
  shown entry member := lists.shown entry (perm.mem_iff.mp member)
  complete rest there := by
    obtain ⟨entry, member, starts⟩ := lists.complete rest there
    exact ⟨entry, perm.mem_iff.mpr member, starts⟩

theorem Disk.lists_of_list {d : Disk} {p : Path} {tree : Tree} (sound : d.Sound)
    (found : d.list p = .ok tree) : Lists d.files (d.place p) tree.entries := by
  have here := Disk.list_eq_ok found
  have treeSound : tree.Sound := sound.root.at? here
  have below (rest : Location) : d.files (d.place p ++ rest) = tree.fileAt? rest :=
    Tree.fileAt?_append here rest
  have listed {name : String} {entry : Entry} (member : (name, entry) ∈ tree.entries) :
      tree.get? name = some entry := (Tree.mem_entries_iff treeSound).mp member
  refine ⟨?_, Tree.entries_nodup treeSound, ?_, ?_⟩
  · intro entry member
    exact (treeSound.of_get? (listed member)).1
  · intro ⟨name, entry⟩ member
    cases entry with
    | folder content =>
        rw [Shown, below, Tree.fileAt?, listed member]
        rfl
    | file data =>
        intro next rest
        rw [List.append_assoc, below, List.singleton_append, Tree.fileAt?, listed member]
        rfl
  · intro rest there
    rw [below] at there
    cases rest with
    | nil => exact absurd rfl there
    | cons name rest =>
        cases inside : tree.get? name with
        | none => simp [Tree.fileAt?, inside] at there
        | some entry =>
            exact ⟨(name, entry), (Tree.mem_entries_iff treeSound).mpr inside, by simp⟩

def transferOf (fate : Fate) (source target : Location) (names : List String)
    (files : Location → Option FileData) : Location → Option FileData := fun place =>
  if ∃ name ∈ names, target ++ [name] <+: place then transfer fate source target files place
  else files place

section TransferOf

variable {fate : Fate} {source target : Location} {files : Location → Option FileData}
  {names : List String} {first : String} {place rest : Location}

theorem transferOf_listed (member : first ∈ names) :
    transferOf fate source target names files (target ++ first :: rest) =
      fate (first :: rest) (files (source ++ first :: rest)) (files (target ++ first :: rest)) := by
  rw [transferOf, if_pos ⟨first, member, by simp⟩, transfer_below]

theorem transferOf_unlisted (absent : first ∉ names) :
    transferOf fate source target names files (target ++ first :: rest) =
      files (target ++ first :: rest) := by
  refine if_neg ?_
  rintro ⟨other, member, starts⟩
  rw [List.prefix_append_right_inj] at starts
  have same : other = first := by simpa using starts
  exact absent (same ▸ member)

theorem not_concat_starts (place : Location) (name : String) : ¬ place ++ [name] <+: place :=
  fun starts => absurd starts.length_le (by simp)

theorem transferOf_here : transferOf fate source target names files target = files target :=
  if_neg fun ⟨name, _, starts⟩ => not_concat_starts target name starts

theorem transferOf_outside (outside : ¬ target <+: place) :
    transferOf fate source target names files place = files place :=
  if_neg fun ⟨_, _, starts⟩ => outside ((List.prefix_append _ _).trans starts)

theorem transferOf_cons {name : String} {names : List String}
    (apart : ∀ other ∈ names, Apart (source ++ [other]) target) (once : name ∉ names) :
    transferOf fate source target names
        (transfer (fate.below name) (source ++ [name]) (target ++ [name]) files) =
      transferOf fate source target (name :: names) files := by
  funext place
  have sourceKept {other : String} (member : other ∈ names) (rest : Location) :
      transfer (fate.below name) (source ++ [name]) (target ++ [name]) files
          (source ++ ([other] ++ rest)) = files (source ++ ([other] ++ rest)) := by
    rw [← List.append_assoc]
    exact transfer_outside ((apart other member).append rest [name]).below
  by_cases inside : target ++ [name] <+: place
  · obtain ⟨rest, rfl⟩ := inside
    -- Names occur once, so no entry that follows writes here again.
    have later : ¬ ∃ other ∈ names, target ++ [other] <+: target ++ [name] ++ rest := by
      rintro ⟨other, member, starts⟩
      rw [List.append_assoc, List.prefix_append_right_inj] at starts
      have same : other = name := by simpa using starts
      exact once (same ▸ member)
    have now : ∃ other ∈ name :: names, target ++ [other] <+: target ++ [name] ++ rest :=
      ⟨name, List.mem_cons_self, List.prefix_append _ _⟩
    rw [transferOf, if_neg later, transfer_below, transferOf, if_pos now]
    simp only [List.append_assoc, List.singleton_append, transfer_below, Fate.below]
  · have same : (∃ other ∈ name :: names, target ++ [other] <+: place) ↔
        ∃ other ∈ names, target ++ [other] <+: place := by
      simp [inside]
    rw [transferOf, transferOf, transfer_outside inside]
    simp only [same]
    split
    · next found =>
        obtain ⟨other, member, rest, rfl⟩ := found
        rw [List.append_assoc] at inside ⊢
        rw [transfer_below, transfer_below, sourceKept member, transfer_outside inside]
    · rfl

theorem transferOf_all (sparing : fate.Sparing) {entries : List (String × Entry)}
    (lists : Lists files source entries) :
    transferOf fate source target (entries.map (·.1)) files = transfer fate source target files := by
  funext place
  rw [transferOf]
  split
  · rfl
  · next missing =>
      by_cases inside : target <+: place
      · obtain ⟨rest, rfl⟩ := inside
        have absent : files (source ++ rest) = none := by
          by_contra there
          obtain ⟨entry, member, starts⟩ := lists.complete rest there
          apply missing
          refine ⟨entry.1, List.mem_map_of_mem member, ?_⟩
          rwa [List.prefix_append_right_inj]
        rw [transfer_below, absent, sparing]
      · rw [transfer_outside inside]

end TransferOf

end Cookbook
