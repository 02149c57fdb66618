import Cookbook.Proofs.Recipe.Discovery
import Cookbook.Proofs.Text.Bytes
import Mathlib.Data.List.Nodup

/-!
What a search for recipes finds: every folder that holds a descriptor and is not hidden, once, in the
order of the names that lead there, compared by bytes. A search fails on the first folder that is not
hidden and has a path that cannot be used.
-/

namespace Cookbook

/-! ## The folders of a tree -/

namespace Tree

variable {tree : Tree}

theorem visibleFolders_folder (name : String) (content rest : Tree) :
    (folder name content rest).visibleFolders.map (·.1) =
      (if isHidden name then [] else ([] :: content.visibleFolders.map (·.1)).map (name :: ·)) ++
        rest.visibleFolders.map (·.1) := by
  rw [visibleFolders, List.map_append]
  split
  · rfl
  · simp

theorem nodup_visibleFolders (sound : tree.Sound) : (tree.visibleFolders.map (·.1)).Nodup := by
  induction tree with
  | empty => exact List.nodup_nil
  | file name data rest ih => exact ih sound.2.2
  | folder name content rest contentIh restIh =>
      obtain ⟨-, once, contentSound, restSound⟩ := sound
      have inside : ([] :: content.visibleFolders.map (·.1)).Nodup := by
        refine List.nodup_cons.mpr ⟨fun member => ?_, contentIh contentSound⟩
        obtain ⟨⟨_, inner⟩, member, rfl⟩ := List.mem_map.mp member
        exact ((mem_visibleFolders contentSound).mp member).below rfl
      -- The rest has no entry with this name, so no place in it starts there.
      have apart : ∀ below, name :: below ∉ rest.visibleFolders.map (·.1) := by
        intro below member
        obtain ⟨⟨_, inner⟩, member, rfl⟩ := List.mem_map.mp member
        have leads := ((mem_visibleFolders restSound).mp member).leads
        rw [at?_of_absent once] at leads
        cases leads
      rw [visibleFolders_folder]
      split
      · exact restIh restSound
      · refine List.nodup_append.mpr ⟨List.Nodup.map List.cons_injective inside, restIh restSound, ?_⟩
        rintro _ first place member rfl
        obtain ⟨below, -, rfl⟩ := List.mem_map.mp first
        exact apart below member

end Tree

/-! ## The order of places -/

theorem Location.comesBefore_iff {first second : Location} :
    first.comesBefore second = true ↔ first ≤ second := by
  rw [comesBefore, Bool.not_eq_true', Bool.eq_false_iff, ne_eq, List.lex_eq_true_iff_lt]
  exact not_lt

/-- That a place comes before another one if their names are compared by bytes from the top. -/
def Location.Precedes (first second : Location) : Prop :=
  first.map Text.bytes < second.map Text.bytes

theorem Location.precedes_iff {first second : Location} : first.Precedes second ↔ first < second := by
  unfold Precedes
  induction first generalizing second with
  | nil => cases second <;> simp
  | cons name first ih =>
      cases second with
      | nil => simp
      | cons other second =>
          rw [List.map_cons, List.map_cons, List.cons_lt_cons_iff, List.cons_lt_cons_iff, ih,
            Text.bytes_lt_iff, Text.bytes_inj]

/-- The visible folders as they are walked. -/
def Tree.walk (tree : Tree) : List (Location × Tree) :=
  sortBy (fun first second => first.1.comesBefore second.1) tree.visibleFolders

theorem Tree.walk_pairwise {tree : Tree} (sound : tree.Sound) :
    tree.walk.Pairwise fun first second => first.1.Precedes second.1 := by
  have ordered : tree.walk.Pairwise fun first second => first.1.comesBefore second.1 :=
    sortBy_pairwise
      (fun first second => by
        rw [Location.comesBefore_iff, Location.comesBefore_iff]
        exact le_total first.1 second.1)
      (fun first second third => by
        simp only [Location.comesBefore_iff]
        exact le_trans) tree.visibleFolders
  have distinct : (tree.walk.map (·.1)).Nodup :=
    ((sortBy_perm _ _).map _).nodup_iff.mpr (nodup_visibleFolders sound)
  refine (ordered.and (List.pairwise_map.mp distinct)).imp fun ⟨notAfter, other⟩ => ?_
  rw [Location.precedes_iff]
  exact lt_of_le_of_ne (Location.comesBefore_iff.mp notAfter) other

/-! ## The recipes that are found -/

/-- That there is a recipe at a place: a visible folder that holds a descriptor. -/
def Tree.RecipeAt (tree : Tree) (place : Location) : Prop :=
  ∃ inner data, tree.Unhidden place inner ∧ inner.get? Descriptor.fileName = some (.file data)

theorem Tree.holdsDescriptor_iff {tree : Tree} : tree.holdsDescriptor = true ↔
    ∃ data, tree.get? Descriptor.fileName = some (.file data) := by
  unfold holdsDescriptor
  split
  · next data there => simp [there]
  · next other => simpa using other

section Finding

variable {d : Disk} {root : Path} {tree inner : Tree} {place : Location}

theorem Tree.mem_walk (sound : tree.Sound) : (place, inner) ∈ tree.walk ↔ tree.Unhidden place inner :=
  (sortBy_perm _ _).mem_iff.trans (mem_visibleFolders sound)

/-- The places of the recipes in a tree, as far as the paths of their descriptors can be used. -/
def Disk.recipePlaces (d : Disk) (root : Path) (tree : Tree) : List Location :=
  (tree.walk.filter fun folder => folder.2.holdsDescriptor &&
    (d.refuse? ((root.joinNames folder.1).joinName Descriptor.fileName)).isNone).map (·.1)

theorem findRecipes_folder (there : d.entry root = .ok (.folder tree)) : findRecipes d root =
    match tree.walk.find? fun folder => (d.refuse? (root.joinNames folder.1)).isSome with
    | some (place, _) => .error (.io (root.joinNames place) .nameTooLong)
    | none => .ok ((d.recipePlaces root tree).map root.joinNames) := by
  unfold findRecipes Disk.recipePlaces Tree.walk
  simp only [there, List.find?_map, List.filter_map, List.map_map, Function.comp_def]
  cases (sortBy (fun first second => first.1.comesBefore second.1) tree.visibleFolders).find?
    fun folder => (d.refuse? (root.joinNames folder.1)).isSome <;> rfl

theorem Disk.mem_recipePlaces (sound : tree.Sound) : place ∈ d.recipePlaces root tree ↔
    tree.RecipeAt place ∧ d.refuse? ((root.joinNames place).joinName Descriptor.fileName) = none := by
  simp only [recipePlaces, List.mem_map, List.mem_filter, Prod.exists, Bool.and_eq_true,
    Tree.holdsDescriptor_iff, Option.isNone_iff_eq_none, Tree.mem_walk sound]
  constructor
  · rintro ⟨_, inner, ⟨visible, ⟨data, holds⟩, accepted⟩, rfl⟩
    exact ⟨⟨inner, data, visible, holds⟩, accepted⟩
  · rintro ⟨⟨inner, data, visible, holds⟩, accepted⟩
    exact ⟨place, inner, ⟨visible, ⟨data, holds⟩, accepted⟩, rfl⟩

theorem Disk.recipePlaces_pairwise (sound : tree.Sound) :
    (d.recipePlaces root tree).Pairwise Location.Precedes :=
  List.pairwise_map.mpr ((Tree.walk_pairwise sound).filter _)

theorem Location.Precedes.not_prefix {first second : Location} (precedes : first.Precedes second) :
    ¬ second <+: first := fun below =>
  List.not_lt.mpr below.le (precedes_iff.mp precedes)

theorem Location.Precedes.asymm {first second : Location} (precedes : first.Precedes second) :
    ¬ second.Precedes first := fun back => List.lt_asymm precedes back

theorem nodup_joinNames (d : Disk) (root : Path) {places : List Location}
    (proper : ∀ place ∈ places, ∀ name ∈ place, ProperName name)
    (ordered : places.Pairwise Location.Precedes) : (places.map root.joinNames).Nodup := by
  refine List.pairwise_map.mpr (ordered.imp_of_mem ?_)
  intro first second inFirst inSecond precedes same
  have here : d.place root ++ first = d.place root ++ second := by
    rw [← d.place_joinNames root (proper first inFirst), same,
      d.place_joinNames root (proper second inSecond)]
  obtain rfl := List.append_cancel_left here
  exact precedes.asymm precedes

theorem findRecipes_refused (there : d.entry root = .ok (.folder tree)) (sound : tree.Sound)
    (visible : tree.Unhidden place inner) (refused : d.refuse? (root.joinNames place) ≠ none)
    (least : ∀ other inner, tree.Unhidden other inner → d.refuse? (root.joinNames other) ≠ none →
      other = place ∨ place.Precedes other) :
    findRecipes d root = .error (.io (root.joinNames place) .nameTooLong) := by
  have member := (Tree.mem_walk sound).mpr visible
  rw [findRecipes_folder there]
  split
  · next other inner' found =>
      obtain ⟨blocked, before, after, walked, usable⟩ := List.find?_eq_some_iff_append.mp found
      have visible' : tree.Unhidden other inner' := (Tree.mem_walk sound).mp (walked ▸ by simp)
      have ordered := Tree.walk_pairwise sound
      rw [walked] at member ordered
      obtain earlier | same | later := by simpa using member
      · have accepted := usable _ earlier
        simp [refused] at accepted
      · rw [same.1]
      · have precedes := (List.pairwise_cons.mp (List.pairwise_append.mp ordered).2.1).1 _ later
        obtain rfl | back := least other inner' visible'
          (by simpa [Option.isSome_iff_ne_none] using blocked)
        · rfl
        · exact absurd back precedes.asymm
  · next usable =>
      have accepted := List.find?_eq_none.mp usable _ member
      simp [refused] at accepted

/-- A search below what is not a folder fails. Below a folder whose visible folders all have paths that
can be used, it finds the recipes whose descriptors have such paths, each once and a recipe before those
in it; else it fails on the first visible folder whose path cannot be used. -/
theorem findRecipes_exact (sound : d.Sound) (root : Path) :
    (d.isFolder root = false → findRecipes d root = .error (.notAFolder root)) ∧
    ∀ tree, d.entry root = .ok (.folder tree) →
      ((∀ place inner, tree.Unhidden place inner → d.refuse? (root.joinNames place) = none) →
        ∃ places : List Location, findRecipes d root = .ok (places.map root.joinNames) ∧
          (∀ place, place ∈ places ↔ tree.RecipeAt place ∧
            d.refuse? ((root.joinNames place).joinName Descriptor.fileName) = none) ∧
          (places.map root.joinNames).Nodup ∧
          places.Pairwise Location.Precedes ∧
          places.Pairwise fun first second => ¬ second <+: first) ∧
      ∀ place inner, tree.Unhidden place inner → d.refuse? (root.joinNames place) ≠ none →
        (∀ other inner, tree.Unhidden other inner → d.refuse? (root.joinNames other) ≠ none →
          other = place ∨ place.Precedes other) →
        findRecipes d root = .error (.io (root.joinNames place) .nameTooLong) := by
  refine ⟨?_, fun tree there => ⟨?_, ?_⟩⟩
  · intro notFolder
    unfold findRecipes
    split
    · next tree there => simp [Disk.isFolder, there] at notFolder
    · rfl
  · intro usable
    have treeSound : tree.Sound := sound.root.at? (Disk.entry_eq_ok there)
    have ordered : (d.recipePlaces root tree).Pairwise Location.Precedes :=
      d.recipePlaces_pairwise treeSound
    refine ⟨d.recipePlaces root tree, ?_, fun place => Disk.mem_recipePlaces treeSound, ?_, ordered,
      ordered.imp Location.Precedes.not_prefix⟩
    · rw [findRecipes_folder there]
      split
      · next place inner found =>
          have blocked := List.find?_some found
          rw [usable place inner ((Tree.mem_walk treeSound).mp (List.mem_of_find?_eq_some found))] at blocked
          cases blocked
      · rfl
    · refine nodup_joinNames d root ?_ ordered
      intro place member
      obtain ⟨⟨_, _, visible, -⟩, -⟩ := (Disk.mem_recipePlaces treeSound).mp member
      exact treeSound.names visible.leads
  · intro place inner visible refused least
    exact findRecipes_refused there (sound.root.at? (Disk.entry_eq_ok there)) visible refused least

end Finding

/-! ## Recipes that are found, and one that is not -/

def anyDescriptor : Tree :=
  .file Descriptor.fileName ⟨"[agpVersion]\nmin = \"8.1.0\"".toUTF8, false⟩ .empty

/-- A hidden folder with recipes, one of them in another one and one of them in a hidden folder. -/
def nestedTree : Tree :=
  .folder "a-b" anyDescriptor
    (.folder ".later" (.folder "c" anyDescriptor .empty)
      (.folder "a" (.file Descriptor.fileName ⟨.empty, false⟩ (.folder "z" anyDescriptor .empty))
        (.folder "b" (.folder Descriptor.fileName .empty .empty) .empty)))

def nestedRecipes : Disk where
  root := .folder ".recipes" nestedTree .empty
  here := []

theorem nestedRecipes_sound : nestedRecipes.Sound :=
  ⟨(by decide : nestedRecipes.root.Sound), by simp [nestedRecipes]⟩

theorem findRecipes_exact_nestedRecipes :
    findRecipes nestedRecipes ⟨"recipes"⟩ = .error (.notAFolder ⟨"recipes"⟩) ∧
    ∃ places : List Location,
      findRecipes nestedRecipes ⟨".recipes"⟩ = .ok (places.map (Path.joinNames ⟨".recipes"⟩)) ∧
      places.map (Path.joinNames ⟨".recipes"⟩) =
        [⟨".recipes/a"⟩, ⟨".recipes/a/z"⟩, ⟨".recipes/a-b"⟩] ∧
      ["a", "z"] ∈ places ∧ [".later", "c"] ∉ places ∧ places.Pairwise Location.Precedes := by
  have there : nestedRecipes.entry ⟨".recipes"⟩ = .ok (.folder nestedTree) := by decide +kernel
  have sound : nestedTree.Sound := by decide +kernel
  have usable : ∀ folder ∈ nestedTree.visibleFolders,
      nestedRecipes.refuse? (Path.joinNames ⟨".recipes"⟩ folder.1) = none := by decide +kernel
  obtain ⟨-, given⟩ := findRecipes_exact nestedRecipes_sound ⟨".recipes"⟩
  obtain ⟨places, found, recipes, -, ordered, -⟩ := (given nestedTree there).1
    fun place inner visible => usable (place, inner) ((Tree.mem_visibleFolders sound).mpr visible)
  refine ⟨(findRecipes_exact nestedRecipes_sound ⟨"recipes"⟩).1 (by decide +kernel), places, found, ?_,
    (recipes _).mpr ⟨⟨_, _, ⟨by decide, by decide, rfl⟩, rfl⟩, by decide +kernel⟩, ?_, ordered⟩
  · have listed : findRecipes nestedRecipes ⟨".recipes"⟩ =
        .ok [⟨".recipes/a"⟩, ⟨".recipes/a/z"⟩, ⟨".recipes/a-b"⟩] := by decide +kernel
    exact Except.ok.inj (found.symm.trans listed)
  · intro member
    obtain ⟨⟨_, _, visible, -⟩, -⟩ := (recipes _).mp member
    exact absurd rfl (visible.shown ".later" (by simp))

/-! ## A recipe that is not found -/

def deepRecipe : Disk where
  root := .folder "recipes" (.folder "ab" anyDescriptor .empty) .empty
  here := []

/-- A way to the recipes with more slashes than it needs. -/
def longWay (slashes : Nat) : Path :=
  ⟨"./" ++ String.ofList (List.replicate slashes '/') ++ "recipes"⟩

section LongWay

variable {slashes : Nat}

theorem longWay_size : (longWay slashes).text.utf8ByteSize = slashes + 9 := by
  have size : (String.ofList (List.replicate slashes '/')).utf8ByteSize = slashes := by
    rw [String.utf8ByteSize_ofList]
    induction slashes with
    | zero => rfl
    | succ slashes ih =>
        rw [List.replicate_succ, String.utf8Len_cons, ih]
        rfl
  rw [longWay, String.utf8ByteSize_append, String.utf8ByteSize_append, size]
  show 2 + slashes + 7 = slashes + 9
  omega

theorem longWay_endsInSlash : (longWay slashes).endsInSlash = false := by
  have last : (longWay slashes).text.back? = some 's' := by
    rw [longWay, String.back?_eq, String.toList_append]
    exact List.getLast?_append_of_ne_nil _ (by decide)
  rw [Path.endsInSlash, last]
  rfl

theorem longWay_steps : (longWay slashes).steps = [".", "recipes"] := by
  have first (rest : List Char) :
      Text.fields '/' (['.', '/'] ++ rest) = ['.'] :: Text.fields '/' rest := rfl
  have pieces : (longWay slashes).pieces = "." :: (List.replicate slashes "" ++ ["recipes"]) := by
    rw [Path.pieces, longWay, String.toList_append, String.toList_append, List.append_assoc,
      String.toList_ofList, String.toList_ofList, first, Text.fields_replicate, List.map_cons,
      List.map_append, List.map_replicate]
    rfl
  rw [Path.steps, pieces, longWay_endsInSlash]
  simp

theorem refuse?_longWay (short : slashes + 9 < 4096) : deepRecipe.refuse? (longWay slashes) = none := by
  have fits : ¬ deepRecipe.pathLimit ≤ (longWay slashes).text.utf8ByteSize := by
    rw [longWay_size]
    exact Nat.not_le.mpr short
  rw [Disk.refuse?, if_neg fits]
  simp [longWay]

theorem entry_longWay (short : slashes + 9 < 4096) :
    deepRecipe.entry (longWay slashes) = .ok (.folder (.folder "ab" anyDescriptor .empty)) := by
  have relative : (longWay slashes).isAbsolute = false := by
    simp [longWay, Path.isAbsolute, String.front?_eq]
  rw [Disk.entry, Disk.locate, refuse?_longWay short, longWay_steps, relative]
  rfl

theorem refuse?_longWay_joinName (long : 4096 ≤ slashes + 12) :
    deepRecipe.refuse? ((longWay slashes).joinName "ab") = some .nameTooLong := by
  have text : ((longWay slashes).joinName "ab").text = (longWay slashes).text ++ "/ab" := by
    have nonempty : (longWay slashes).text ≠ "" := by simp [longWay]
    rw [Path.joinName, Path.join, if_neg (by decide), if_neg nonempty,
      if_neg (by simp [longWay_endsInSlash]), String.append_assoc]
    rfl
  have tooLong : deepRecipe.pathLimit ≤ ((longWay slashes).joinName "ab").text.utf8ByteSize := by
    rw [text, String.utf8ByteSize_append, longWay_size]
    exact long
  rw [Disk.refuse?, if_pos tooLong, text]
  simp [longWay]

theorem deepRecipe_sound : deepRecipe.Sound :=
  ⟨(by decide : deepRecipe.root.Sound), by simp [deepRecipe]⟩

theorem findRecipes_longWay (short : slashes + 9 < 4096) (long : 4096 ≤ slashes + 12) :
    findRecipes deepRecipe (longWay slashes) =
      .error (.io ((longWay slashes).joinNames ["ab"]) .nameTooLong) := by
  have there := entry_longWay short
  have sound := deepRecipe_sound.root.at? (Disk.entry_eq_ok there)
  refine findRecipes_refused there sound ⟨by decide, by decide, rfl⟩ ?_ fun other inner elsewhere _ => ?_
  · rw [Path.joinNames, List.foldl_cons, List.foldl_nil, refuse?_longWay_joinName long]
    exact Option.some_ne_none _
  · have only := (Tree.mem_visibleFolders sound).mpr elsewhere
    simp [Tree.visibleFolders, anyDescriptor, isHidden] at only
    exact .inl only.2.1

end LongWay

theorem findRecipes_exact_fails : ¬ ∀ (d : Disk) (root : Path) (tree : Tree), d.Sound →
    d.entry root = .ok (.folder tree) → ∃ places : List Location,
      findRecipes d root = .ok (places.map root.joinNames) ∧
        ∀ place, place ∈ places ↔ tree.RecipeAt place := by
  intro exactly
  have short : 4086 + 9 < 4096 := by decide
  have long : 4096 ≤ 4086 + 12 := by decide
  obtain ⟨places, found, -⟩ := exactly _ _ _ deepRecipe_sound (entry_longWay short)
  rw [findRecipes_longWay short long] at found
  cases found

end Cookbook
