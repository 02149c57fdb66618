import Cookbook.Proofs.Convert.Nesting

/-!
Targets that the walk meets. If a recipe is copied to an empty folder that it holds itself, the walk goes
into that folder when it comes to its name. By then it holds what was copied before, so that this is
copied once more, into a folder of the same name.
-/

namespace Cookbook

open Action

/-! ## Entries of a listing -/

/-- Where a name stands in a sorted listing: after those that come before it, and before all others. -/
theorem inOrder_split {tree : Tree} {name : String} {entry : Entry}
    (nodup : (tree.entries.map (·.1)).Nodup) (member : (name, entry) ∈ tree.entries) :
    ∃ front back, tree.inOrder = front ++ (name, entry) :: back ∧
      (∀ other ∈ front, other.1 < name) ∧ ∀ other ∈ back, name < other.1 := by
  have sorted : tree.inOrder.Pairwise fun first second => decide (first.1 ≤ second.1) = true :=
    sortBy_pairwise (fun first second => by simpa using String.le_total first.1 second.1)
      (fun first second third => by simpa using fun once twice => String.le_trans once twice)
      tree.entries
  have distinct := (tree.inOrder_perm.map (·.1)).nodup_iff.mpr nodup
  obtain ⟨front, back, split⟩ := List.append_of_mem (Tree.mem_inOrder.mpr member)
  rw [split] at sorted distinct
  rw [List.pairwise_append, List.pairwise_cons] at sorted
  obtain ⟨-, ⟨after, -⟩, before⟩ := sorted
  simp only [List.map_append, List.map_cons, List.nodup_append, List.nodup_cons, List.mem_map,
    List.mem_cons] at distinct
  refine ⟨front, back, split, ?_, ?_⟩
  · intro other inside
    have notAfter := before other inside _ List.mem_cons_self
    refine Std.lt_of_le_of_ne (by simpa using notAfter) ?_
    exact distinct.2.2 _ ⟨other, inside, rfl⟩ _ (.inl rfl)
  · intro other inside
    have notBefore := after other inside
    refine Std.lt_of_le_of_ne (by simpa using notBefore) ?_
    intro same
    exact distinct.2.1.1 ⟨other, inside, same.symm⟩

structure Others (files : Location → Option FileData) (place : Location) (name : String)
    (entries : List (String × Entry)) : Prop where
  proper : ∀ entry ∈ entries, ProperName entry.1
  nodup : (entries.map (·.1)).Nodup
  shown : ∀ entry ∈ entries, Shown files (place ++ [entry.1]) entry.2
  other : ∀ entry ∈ entries, entry.1 ≠ name

theorem Others.congr {files files' : Location → Option FileData} {place : Location} {name : String}
    {entries : List (String × Entry)} (others : Others files place name entries)
    (same : ∀ other, other ≠ name → ∀ rest,
      files' (place ++ [other] ++ rest) = files (place ++ [other] ++ rest)) :
    Others files' place name entries where
  proper := others.proper
  nodup := others.nodup
  shown entry member := (others.shown entry member).congr (same _ (others.other entry member))
  other := others.other

theorem Lists.others {files : Location → Option FileData} {place : Location} {name : String}
    {entry : Entry} {front back : List (String × Entry)}
    (lists : Lists files place (front ++ (name, entry) :: back)) :
    Others files place name front ∧ Others files place name back := by
  have nodup := lists.nodup
  rw [List.map_append, List.map_cons, List.nodup_append, List.nodup_cons] at nodup
  obtain ⟨frontNodup, ⟨absent, backNodup⟩, distinct⟩ := nodup
  have before {other : String × Entry} (inFront : other ∈ front) :
      other ∈ front ++ (name, entry) :: back := List.mem_append_left _ inFront
  have behind {other : String × Entry} (inBack : other ∈ back) :
      other ∈ front ++ (name, entry) :: back := List.mem_append_right _ (List.mem_cons_of_mem _ inBack)
  refine ⟨⟨?_, frontNodup, ?_, ?_⟩, ⟨?_, backNodup, ?_, ?_⟩⟩
  · exact fun other inFront => lists.proper other (before inFront)
  · exact fun other inFront => lists.shown other (before inFront)
  · exact fun other inFront => distinct _ (List.mem_map_of_mem inFront) _ List.mem_cons_self
  · exact fun other inBack => lists.proper other (behind inBack)
  · exact fun other inBack => lists.shown other (behind inBack)
  · exact fun other inBack same => absent (List.mem_map.mpr ⟨other, inBack, same⟩)

theorem Lists.name_cases {files : Location → Option FileData} {place rest : Location} {name first : String}
    {entry : Entry} {front back : List (String × Entry)}
    (lists : Lists files place (front ++ (name, entry) :: back))
    (there : files (place ++ first :: rest) ≠ none) :
    first = name ∨ first ∈ front.map (·.1) ∨ first ∈ back.map (·.1) := by
  obtain ⟨other, member, starts⟩ := lists.complete (first :: rest) there
  obtain ⟨rfl, -⟩ := List.cons_prefix_cons.mp starts
  rw [List.mem_append, List.mem_cons] at member
  obtain inFront | rfl | inBack := member
  · exact .inr (.inl (List.mem_map_of_mem inFront))
  · exact .inl rfl
  · exact .inr (.inr (List.mem_map_of_mem inBack))

/-! ## The target among the entries -/

/-- What the plan makes of what it has made of a recipe's files that come before a name. -/
def Plan.filesAgain (plan : Plan) (name : String) (files : Location → Option FileData) :
    Location → Option FileData
  | [] => none
  | entry :: rest =>
      if entry < name then
        plan.fate (entry :: rest) (plan.fate (entry :: rest) (files (entry :: rest)) none) none
      else none

/-- What becomes of a recipe's files in a folder that the recipe holds itself, and that is empty at
first: in the folder of the same name below it is what had been copied before the walk came to it. -/
def Plan.metFiles (plan : Plan) (name : String) (files : Location → Option FileData) :
    Location → Option FileData
  | [] => none
  | first :: rest =>
      if first = name then plan.filesAgain name files rest
      else plan.fate (first :: rest) (files (first :: rest)) none

theorem Plan.metFiles_bare (plan : Plan) (name : String) (files : Location → Option FileData)
    {rest : Location}
    (own : rest = ["gradle", "wrapper", "gradle-wrapper.properties"] ∨ rest = ["gradlew"]) :
    plan.metFiles name files rest = none := by
  obtain rfl | rfl := own
  · rw [Plan.metFiles]
    split
    · next same => exact if_neg (same ▸ by decide)
    · exact Plan.fate_skip rfl _ _
  · rw [Plan.metFiles]
    split
    · rfl
    · exact Plan.fate_skip rfl _ _

section Met

variable {plan : Plan} {name : String} {files mid late : Location → Option FileData}
  {source target : Location} {front back : List String} {first : String}
  (empty : ∀ rest, files (target ++ rest) = none)
  (listed : ∀ first rest, files (source ++ first :: rest) ≠ none →
    first = name ∨ first ∈ front ∨ first ∈ back)
  (before : ∀ first ∈ front, first < name) (behind : ∀ first ∈ back, name < first)

include empty listed before behind

/-- What the walk has copied by the time it comes to the target: the files whose names come before. -/
theorem Plan.transferOf_before (first : String) (rest : Location) :
    transferOf plan.fate source target front files (target ++ first :: rest) =
      if first < name then plan.fate (first :: rest) (files (source ++ first :: rest)) none
      else none := by
  by_cases member : first ∈ front
  · rw [transferOf_listed member, empty, if_pos (before first member)]
  · rw [transferOf_unlisted member, empty]
    split
    · next less =>
        have absent : files (source ++ first :: rest) = none := by
          by_contra there
          obtain rfl | inFront | inBack := listed first rest there
          · exact String.lt_irrefl _ less
          · exact member inFront
          · exact String.lt_asymm less (behind first inBack)
        rw [absent, plan.fate_sparing]
    · rfl

variable (fronts : mid = transferOf plan.fate source target front files)
  (meeting : late = transfer plan.fate target (target ++ [name]) mid)

include fronts meeting

theorem Plan.metFiles_own (rest : Location) :
    transferOf plan.fate source target back late (target ++ name :: rest) =
      plan.filesAgain name (fun rest => files (source ++ rest)) rest := by
  have midFile := plan.transferOf_before empty listed before behind
  rw [← fronts] at midFile
  have notBack : name ∉ back := fun member => String.lt_irrefl name (behind name member)
  have below : target ++ name :: rest = target ++ [name] ++ rest := by simp
  have own : mid (target ++ [name] ++ rest) = none := by
    rw [← below, midFile, if_neg (String.lt_irrefl name)]
  rw [transferOf_unlisted notBack, meeting, below, transfer_below, own]
  cases rest with
  | nil =>
      have midHere : mid target = none := by
        have here := empty []
        rw [List.append_nil] at here
        rw [fronts, transferOf_here, here]
      rw [List.append_nil, midHere, plan.fate_sparing]
      rfl
  | cons entry more =>
      rw [midFile, Plan.filesAgain]
      split
      · rfl
      · rw [plan.fate_sparing]

theorem Plan.metFiles_other (inside : target = source ++ [name]) (different : first ≠ name)
    (rest : Location) :
    transferOf plan.fate source target back late (target ++ first :: rest) =
      plan.fate (first :: rest) (files (source ++ first :: rest)) none := by
  have midFile := plan.transferOf_before empty listed before behind
  rw [← fronts] at midFile
  have notOwn : ¬ [name] <+: first :: rest := by simpa using Ne.symm different
  have sourceOutside : ¬ target <+: source ++ first :: rest := by
    rwa [inside, List.prefix_append_right_inj]
  have lateSource : late (source ++ first :: rest) = files (source ++ first :: rest) := by
    rw [meeting, transfer_outside fun starts => sourceOutside ((List.prefix_append _ _).trans starts),
      fronts, transferOf_outside sourceOutside]
  have lateTarget : late (target ++ first :: rest) = mid (target ++ first :: rest) := by
    rw [meeting, transfer_outside (by rwa [List.prefix_append_right_inj])]
  by_cases member : first ∈ back
  · rw [transferOf_listed member, lateSource, lateTarget, midFile,
      if_neg (String.lt_asymm (behind first member))]
  · rw [transferOf_unlisted member, lateTarget, midFile]
    split
    · rfl
    · next notLess =>
        have absent : files (source ++ first :: rest) = none := by
          by_contra there
          obtain own | inFront | inBack := listed first rest there
          · exact different own
          · exact notLess (before first inFront)
          · exact member inBack
        rw [absent, plan.fate_sparing]

theorem Plan.metFiles_eq (inside : target = source ++ [name]) (rest : Location) :
    transferOf plan.fate source target back late (target ++ rest) =
      plan.metFiles name (fun rest => files (source ++ rest)) rest := by
  cases rest with
  | nil =>
      have here := empty []
      rw [List.append_nil] at here
      rw [List.append_nil, transferOf_here, meeting, transfer_outside (not_concat_starts target name),
        fronts, transferOf_here, here]
      rfl
  | cons first rest =>
      rw [Plan.metFiles]
      split
      · next same =>
          subst same
          exact plan.metFiles_own empty listed before behind fronts meeting rest
      · next different =>
          exact plan.metFiles_other empty listed before behind fronts meeting inside different rest

end Met

namespace Copy

variable {session after : Session} {plan : Plan} {source target : Path} {name : String} {depth : Nat}

theorem entries_become {entries : List (String × Entry)} (sound : session.disk.Sound)
    (inside : session.disk.place target = session.disk.place source ++ [name])
    (others : Others session.disk.files (session.disk.place source) name entries)
    (run : (entries.forM (recipeEntry plan depth source target)).run session = .ok () after) :
    session.disk.Becomes after.disk
      (transferOf plan.fate (session.disk.place source) (session.disk.place target)
        (entries.map (·.1)) session.disk.files) := by
  refine forM_becomes ?_ others.nodup sound ?_ others.shown run
  · rintro ⟨first, entry⟩ member
    exact recipeEntry_copies (others.proper _ member) entry
      fun _ _ sound apart run => recipeFolder_becomes sound apart.beside run
  · intro entry member
    rw [inside]
    exact apart_names (others.other entry member)

theorem entries_lay {entries : List (String × Entry)} (sound : session.disk.Sound)
    (inside : session.disk.place target = session.disk.place source ++ [name])
    (opens : session.disk.Opens target)
    (others : Others session.disk.files (session.disk.place source) name entries)
    (folders : ∀ entry ∈ entries,
      (session.disk.root.HasFolder (session.disk.place source ++ [entry.1]) ↔
        entry.2.isFolder = true))
    (run : (entries.forM (recipeEntry plan depth source target)).run session = .ok () after) :
    session.disk.Adds after.disk fun place =>
      ∃ entry ∈ entries, ∃ rest, place = session.disk.place target ++ entry.1 :: rest ∧
        (entry.1 :: rest).all keepsFolder = true ∧
        session.disk.root.HasFolder (session.disk.place source ++ entry.1 :: rest) := by
  refine forM_lays ?_ ?_ sound opens ?_ folders run
  · rintro ⟨first, entry⟩ member
    exact recipeEntry_lays (others.proper _ member) entry
      fun _ _ sound apart avoids run => recipeFolder_lays sound apart.beside avoids.skirts run
  · exact fun entry member =>
      (confined_permits target false).recipeEntry (.refl target) (others.proper _ member)
  · intro entry member
    rw [inside]
    exact apart_names (others.other entry member)

theorem entries_spare {entries : List (String × Entry)} (sound : session.disk.Sound)
    (inside : session.disk.place target = session.disk.place source ++ [name])
    (opens : session.disk.Opens target)
    (others : Others session.disk.files (session.disk.place source) name entries)
    (folders : ∀ entry ∈ entries,
      (session.disk.root.HasFolder (session.disk.place source ++ [entry.1]) ↔
        entry.2.isFolder = true))
    (noFolder : ¬ session.disk.root.HasFolder (session.disk.place target ++ [name]))
    (noFile : session.disk.files (session.disk.place target ++ [name]) = none)
    (run : (entries.forM (recipeEntry plan depth source target)).run session = .ok () after) :
    after.disk.root.at? (session.disk.place target ++ [name]) = none := by
  have becomes := entries_become sound inside others run
  have lays := entries_lay sound inside opens others folders run
  rw [Option.eq_none_iff_forall_ne_some]
  intro entry found
  cases entry with
  | folder content =>
      obtain before | ⟨other, member, rest, same, -⟩ := (lays _).mp ⟨content, found⟩
      · exact noFolder before
      · have names := List.append_cancel_left same
        exact others.other other member (List.cons.inj names).1.symm
  | file data =>
      have file : after.disk.files (session.disk.place target ++ [name]) = some data :=
        Tree.fileAt?_eq_some.mpr found
      have absent : name ∉ entries.map (·.1) := by
        rw [List.mem_map]
        rintro ⟨other, member, same⟩
        exact others.other other member same
      rw [becomes.files, transferOf_unlisted absent, noFile] at file
      cases file

/-- The target's own folder is copied below itself, where nothing is yet. -/
theorem ownEntry_becomes {entry : Entry} (sound : session.disk.Sound)
    (inside : session.disk.place target = session.disk.place source ++ [name])
    (proper : ProperName name) (kept : keepsFolder name = true) (isFolder : entry.isFolder = true)
    (spared : session.disk.root.at? (session.disk.place target ++ [name]) = none)
    (run : (recipeEntry plan depth source target (name, entry)).run session = .ok () after) :
    session.disk.Becomes after.disk
      (transfer plan.fate (session.disk.place target) (session.disk.place target ++ [name])
        session.disk.files) := by
  have onward : Route.skippedFolders.contains name = false := by
    simpa [keepsFolder] using kept
  have sourcePlace : session.disk.place (source.joinName name) = session.disk.place target := by
    rw [Disk.place_joinName _ _ proper, inside]
  have targetPlace : session.disk.place (target.joinName name) = session.disk.place target ++ [name] :=
    Disk.place_joinName _ _ proper
  simp only [recipeEntry, isFolder, onward, Bool.false_eq_true, if_true, if_false] at run
  have becomes := recipeFolder_becomes sound ?_ run
  · rwa [sourcePlace, targetPlace] at becomes
  · rw [sourcePlace, targetPlace]
    intro other held
    refine apart_names ?_
    rintro rfl
    exact held spared

theorem entries_meet {front back : List (String × Entry)} {entry : Entry}
    (sound : session.disk.Sound)
    (inside : session.disk.place target = session.disk.place source ++ [name])
    (opens : session.disk.Opens target)
    (lists : Lists session.disk.files (session.disk.place source) (front ++ (name, entry) :: back))
    (folders : ListsFolders session.disk (session.disk.place source)
      (front ++ (name, entry) :: back))
    (before : ∀ other ∈ front, other.1 < name) (behind : ∀ other ∈ back, name < other.1)
    (folder : session.disk.root.HasFolder (session.disk.place source ++ [name]))
    (kept : keepsFolder name = true)
    (bare : ∀ rest, session.disk.files (session.disk.place target ++ rest) = none)
    (noFolder : ¬ session.disk.root.HasFolder (session.disk.place target ++ [name]))
    (run : ((front ++ (name, entry) :: back).forM (recipeEntry plan depth source target)).run session =
      .ok () after) (rest : Location) :
    after.disk.files (session.disk.place target ++ rest) =
      plan.metFiles name (fun rest => session.disk.files (session.disk.place source ++ rest)) rest := by
  have own : (name, entry) ∈ front ++ (name, entry) :: back := by simp
  obtain ⟨frontOthers, backOthers⟩ := lists.others
  rw [forM_append_eq_ok] at run
  obtain ⟨mid, fronts, run⟩ := run
  obtain ⟨late, meeting, backs⟩ := forM_cons_eq_ok.mp run
  -- The entries before the own one are copied as anywhere else, and leave its name free.
  have midBecomes := entries_become sound inside frontOthers fronts
  have midSound := midBecomes.sound sound
  have spared := entries_spare sound inside opens frontOthers
    (fun other inFront => folders.shown other (List.mem_append_left _ inFront)) noFolder (bare [name])
    fronts
  rw [← midBecomes.place] at spared
  -- Then the target is copied below itself, with what it holds by now.
  have lateBecomes := ownEntry_becomes midSound
    (by rw [midBecomes.place, midBecomes.place, inside]) (lists.proper _ own) kept
    ((folders.shown _ own).mp folder) spared meeting
  have latePlace (path : Path) : late.disk.place path = session.disk.place path :=
    (lateBecomes.place path).trans (midBecomes.place path)
  -- What the walk has yet to read lies outside of the target, and is as it was.
  have still (other : String) (different : other ≠ name) (rest : Location) :
      late.disk.files (session.disk.place source ++ [other] ++ rest) =
        session.disk.files (session.disk.place source ++ [other] ++ rest) := by
    have outside : ¬ session.disk.place target <+: session.disk.place source ++ [other] ++ rest := by
      rw [inside]
      exact (apart_names different).notBelow rest
    rw [lateBecomes.files, midBecomes.place, transfer_outside fun below => outside
      ((List.prefix_append _ _).trans below), midBecomes.files, transferOf_outside outside]
  have afterBecomes := entries_become (lateBecomes.sound midSound)
    (by rw [latePlace, latePlace, inside]) (latePlace source ▸ backOthers.congr still) backs
  rw [afterBecomes.files, latePlace, latePlace]
  exact Plan.metFiles_eq bare (fun _ _ => lists.name_cases) (List.forall_mem_map.mpr before)
    (List.forall_mem_map.mpr behind) midBecomes.files (midBecomes.place target ▸ lateBecomes.files)
    inside rest

theorem recipeFolder_meets (sound : session.disk.Sound)
    (inside : session.disk.place target = session.disk.place source ++ [name])
    (opens : session.disk.Opens target)
    (empty : session.disk.root.at? (session.disk.place target) = some (.folder .empty))
    (kept : keepsFolder name = true)
    (run : (recipeFolder plan depth source target).run session = .ok () after) (rest : Location) :
    after.disk.files (session.disk.place target ++ rest) =
      plan.metFiles name (fun rest => session.disk.files (session.disk.place source ++ rest)) rest := by
  obtain ⟨depth, tree, begun, -, list, creating, run⟩ := recipeFolder_eq_ok.mp run
  have created := createFolders_becomes sound creating
  obtain ⟨disk, making, rfl⟩ := createFolders_eq_ok.mp creating
  have folder : session.disk.root.HasFolder (session.disk.place source ++ [name]) :=
    ⟨.empty, inside ▸ empty⟩
  have noFolder : ¬ session.disk.root.HasFolder (session.disk.place target ++ [name]) := by
    rw [Tree.HasFolder, Tree.at?_append empty]
    rintro ⟨_, ⟨⟩⟩
  have bare (rest : Location) : session.disk.files (session.disk.place target ++ rest) = none := by
    rw [Disk.files, Tree.fileAt?_append empty]
    cases rest <;> rfl
  have folders (place : Location) :
      disk.root.HasFolder place ↔ session.disk.root.HasFolder place :=
    (Disk.createFolders_adds sound making place).trans (or_iff_left_of_imp (opens place))
  have lists := Disk.lists_of_list sound list
  have listsFolders := listsFolders_of_list sound list
  obtain ⟨⟨first, entry⟩, member, rfl⟩ := listsFolders.complete _ [] folder
  -- The walk takes the entries in order, so what comes before the own one tells what it has copied
  -- by then.
  obtain ⟨front, back, inOrder, before, behind⟩ := inOrder_split lists.nodup member
  replace lists := lists.perm tree.inOrder_perm
  replace listsFolders := (listsFolders.perm tree.inOrder_perm).congr fun _ => folders _
  rw [inOrder] at lists listsFolders run
  have sourcePlace := created.place source
  have targetPlace := created.place target
  rw [← created.files, ← sourcePlace] at lists
  rw [← created.files, ← targetPlace] at bare
  rw [← sourcePlace] at listsFolders folder
  rw [← targetPlace] at noFolder
  rw [← sourcePlace, ← targetPlace] at inside
  rw [← sourcePlace, ← targetPlace, ← created.files]
  exact entries_meet (created.sound sound) inside (Disk.createFolders_opens making) lists
    listsFolders before behind ((folders _).mpr folder) kept bare
    (fun there => noFolder ((folders _).mp there)) run rest

end Copy

end Cookbook
