import Cookbook.Proofs.Convert.Accepting
import Cookbook.Proofs.Convert.Nesting
import Cookbook.Proofs.Convert.Resuming

/-!
How deep copying goes. The bound on the depth of a walk is only there for it to be defined: a walk that
nothing is made or written in front of ends by itself, at the latest as deep as the folder was high
before. So any two bounds that the height covers give the same run (`recipeFolder_depth`). A walk that
meets its own target again runs into every bound (`recipeFolder_endless`).
-/

namespace Cookbook

/-! ## Heights -/

/-- How many folders are below one another in a tree, the tree's own one included. -/
def Tree.height : Tree → Nat
  | empty => 1
  | file _ _ rest => rest.height
  | folder _ content rest => max (content.height + 1) rest.height

theorem Tree.height_pos (tree : Tree) : 0 < tree.height := by
  induction tree with
  | empty => exact Nat.one_pos
  | file name data rest ih => exact ih
  | folder name content rest _ ih => exact Nat.lt_of_lt_of_le ih (Nat.le_max_right _ _)

theorem Tree.height_get? {tree content : Tree} {name : String}
    (inside : tree.get? name = some (.folder content)) : content.height < tree.height := by
  induction tree with
  | empty => cases inside
  | file other data rest ih =>
      rw [get?] at inside
      split at inside
      · cases inside
      · exact ih inside
  | folder other inner rest _ ih =>
      rw [get?] at inside
      rw [height]
      split at inside
      · cases inside
        exact Nat.lt_of_lt_of_le (Nat.lt_succ_self _) (Nat.le_max_left _ _)
      · exact Nat.lt_of_lt_of_le (ih inside) (Nat.le_max_right _ _)

theorem Tree.HasFolder.length_lt {tree : Tree} {place : Location} (there : tree.HasFolder place) :
    place.length < tree.height := by
  induction place generalizing tree with
  | nil => exact tree.height_pos
  | cons name place ih =>
      obtain ⟨content, inside, below⟩ := Tree.hasFolder_cons.mp there
      have deeper := ih below
      have higher := Tree.height_get? inside
      rw [List.length_cons]
      omega

namespace Disk

variable {d made : Disk} {place : Location} {high : Nat}

/-- The height of the folder at a place, and of what is no folder that of an empty one. -/
def height (d : Disk) (place : Location) : Nat :=
  match d.root.at? place with
  | some (.folder tree) => tree.height
  | _ => 1

theorem height_pos (d : Disk) (place : Location) : 0 < d.height place := by
  unfold height
  split
  · exact Tree.height_pos _
  · exact Nat.one_pos

/-- That no folder at or below a place is deeper than a bound. -/
def Within (d : Disk) (place : Location) (high : Nat) : Prop :=
  ∀ rest, d.root.HasFolder (place ++ rest) → rest.length < high

theorem within_height (d : Disk) (place : Location) : d.Within place (d.height place) := by
  intro rest there
  obtain ⟨tree, found⟩ := there.of_append
  obtain ⟨content, below⟩ := there
  rw [Tree.at?_append found] at below
  rw [height, found]
  exact Tree.HasFolder.length_lt ⟨content, below⟩

theorem Within.of_same (within : d.Within place high) (same : d.SameIn made place) :
    made.Within place high :=
  fun rest there => within rest ((same rest).2.mp there)

theorem Within.entry {name : String} (within : d.Within place (high + 1)) :
    d.Within (place ++ [name]) high := by
  intro rest there
  rw [List.append_assoc] at there
  exact Nat.lt_of_succ_lt_succ (within ([name] ++ rest) there)

theorem Within.pos (within : d.Within place high) (there : d.root.HasFolder place) : 0 < high :=
  within [] (by rwa [List.append_nil])

end Disk

/-! ## Runs that go alike -/

namespace Action

variable {α β : Type} {session : Session}

theorem run_bind_congr {action action' : Action α} {next next' : α → Action β}
    (here : action.run session = action'.run session)
    (onward : ∀ value after, action.run session = .ok value after →
      (next value).run after = (next' value).run after) :
    (action >>= next).run session = (action' >>= next').run session := by
  cases run : action.run session with
  | ok value after =>
      rw [run_bind_of_ok run, run_bind_of_ok (here ▸ run)]
      exact onward value after run
  | error failure after => rw [run_bind_of_error run, run_bind_of_error (here ▸ run)]

theorem forM_run_congr (relation : Session → Session → Prop) [IsPreorder Session relation]
    {items : List α} {f g : α → Action Unit} (each : ∀ item ∈ items, Keeps relation (f item))
    (same : ∀ item ∈ items, ∀ now, relation session now → (f item).run now = (g item).run now) :
    (items.forM f).run session = (items.forM g).run session := by
  induction items generalizing session with
  | nil => rfl
  | cons item items ih =>
      rw [List.forall_mem_cons] at each same
      rw [List.forM, List.forM]
      refine run_bind_congr (same.1 session (refl_of relation session)) ?_
      intro _ between run
      have onward : relation session between := each.1.ok run
      exact ih each.2 fun other member now further =>
        same.2 other member now (trans_of relation onward further)

end Action

open Action

/-! ## Walks that end -/

section Walks

variable {session now after : Session} {plan : Plan} {source target : Path} {made : Disk}
  {high depth depth' : Nat}

theorem createFolders_inward (target : Path) : Keeps (Inward target) (createFolders target) :=
  (inward_permits target).makeFolders (.refl target)

theorem inward_created (created : session.disk.createFolders target = (made, .ok ())) :
    Inward target session { session with disk := made } :=
  (createFolders_inward target).ok (createFolders_eq_ok.mpr ⟨made, created, rfl⟩)

theorem Inward.opens (walked : Inward target { session with disk := made } now)
    (sound : session.disk.Sound) (created : session.disk.createFolders target = (made, .ok ())) :
    now.disk.Opens target := by
  have begunSound := ((inward_created created).1 sound).becomes.sound sound
  -- The target was made before the first entry, and no folder goes away during the walk.
  have changes := walked.1 begunSound
  exact (Disk.createFolders_opens created).mono changes.becomes changes.keepsFolders

/-- Wherever the walk is among the entries of a folder, it can go into a folder that was there before it
as it could have at first, and finds it no higher than it was. -/
theorem Inward.walksInto {name : String} (walked : Inward target { session with disk := made } now)
    (sound : session.disk.Sound) (created : session.disk.createFolders target = (made, .ok ()))
    (evades : session.disk.Evades source target)
    (within : session.disk.Within (session.disk.place source) (high + 1)) (proper : ProperName name)
    (folder : session.disk.root.HasFolder (session.disk.place source ++ [name])) :
    now.disk.Sound ∧
      Apart (now.disk.place (source.joinName name)) (now.disk.place (target.joinName name)) ∧
      now.disk.Avoids (source.joinName name) (target.joinName name) ∧
      now.disk.Within (now.disk.place (source.joinName name)) high := by
  have inward : Inward target session now := trans_of (Inward target) (inward_created created) walked
  have becomes := (inward.1 sound).becomes
  have opens := walked.opens sound created
  have place := Disk.place_joinName session.disk source proper
  have beside := evades.apart folder
  have apart : Apart (session.disk.place source ++ [name]) (session.disk.place target ++ [name]) := by
    simpa using beside.append [] [name]
  have kept : session.disk.SameIn now.disk (session.disk.place (source.joinName name)) := by
    refine inward.keepsSource sound (by rwa [place]) ?_
    rw [Disk.Avoids, place]
    exact evades.avoids name folder
  rw [Disk.Avoids, becomes.place, becomes.place, place, Disk.place_joinName _ _ proper]
  rw [place] at kept
  refine ⟨becomes.sound sound, apart, ?_, within.entry.of_same kept⟩
  intro passed passes below
  obtain passes | rfl := (Disk.passes_joinName proper).mp passes
  · exact opens passed passes
  · rw [becomes.place] at below
    exact absurd below apart.above

theorem recipeFolder_depth (sound : session.disk.Sound) (evades : session.disk.Evades source target)
    (within : session.disk.Within (session.disk.place source) high) (positive : 0 < high)
    (enough : high ≤ depth) (enough' : high ≤ depth') :
    (Copy.recipeFolder plan depth source target).run session =
      (Copy.recipeFolder plan depth' source target).run session := by
  -- In a folder below both bounds are one less, and so is the height that they cover.
  induction high generalizing source target session depth depth' with
  | zero => exact absurd positive (Nat.lt_irrefl 0)
  | succ high ih =>
      obtain ⟨depth, rfl⟩ : ∃ less, depth = less + 1 := ⟨depth - 1, by omega⟩
      obtain ⟨depth', rfl⟩ : ∃ less, depth' = less + 1 := ⟨depth' - 1, by omega⟩
      rw [Copy.recipeFolder, Copy.recipeFolder]
      refine run_bind_congr rfl ?_
      intro tree between looking
      obtain ⟨list, rfl⟩ := look_eq_ok.mp looking
      refine run_bind_congr rfl ?_
      intro _ begun creating
      obtain ⟨disk, created, rfl⟩ := createFolders_eq_ok.mp creating
      have proper := (Disk.lists_of_list sound list).proper
      have permits := inward_permits target
      refine forM_run_congr (Inward target) ?_ ?_
      · exact fun entry member =>
          permits.recipeEntry (.refl target) (proper _ (Tree.mem_inOrder.mp member))
      · rintro ⟨name, entry⟩ member now walked
        have listed := Tree.mem_inOrder.mp member
        have single : ProperName name := proper _ listed
        cases entry with
        | file data => rfl
        | folder content =>
            have folder : session.disk.root.HasFolder (session.disk.place source ++ [name]) :=
              ⟨content, Disk.at?_listed sound list listed⟩
            obtain ⟨nowSound, apart, avoids, lower⟩ :=
              walked.walksInto sound created evades within single folder
            simp only [Entry.isFolder, if_true]
            split
            · rfl
            · exact ih nowSound (.of_apart apart avoids) lower (within.entry.pos folder) (by omega)
                (by omega)

theorem wholeFolder_depth (sound : session.disk.Sound)
    (apart : Apart (session.disk.place source) (session.disk.place target))
    (avoids : session.disk.Avoids source target)
    (within : session.disk.Within (session.disk.place source) high) (positive : 0 < high)
    (enough : high ≤ depth) (enough' : high ≤ depth') :
    (Copy.wholeFolder depth source target).run session =
      (Copy.wholeFolder depth' source target).run session := by
  induction high generalizing source target session depth depth' with
  | zero => exact absurd positive (Nat.lt_irrefl 0)
  | succ high ih =>
      obtain ⟨depth, rfl⟩ : ∃ less, depth = less + 1 := ⟨depth - 1, by omega⟩
      obtain ⟨depth', rfl⟩ : ∃ less, depth' = less + 1 := ⟨depth' - 1, by omega⟩
      rw [Copy.wholeFolder, Copy.wholeFolder]
      refine run_bind_congr rfl ?_
      intro _ begun creating
      obtain ⟨disk, created, rfl⟩ := createFolders_eq_ok.mp creating
      have started := inward_created created
      have begunBecomes := (started.1 sound).becomes
      have begunSound := begunBecomes.sound sound
      have still := started.keepsSource sound apart avoids
      refine run_bind_congr rfl ?_
      intro tree between looking
      obtain ⟨list, rfl⟩ := look_eq_ok.mp looking
      have proper := (Disk.lists_of_list begunSound list).proper
      have permits := inward_permits target
      refine forM_run_congr (Inward target) ?_ ?_
      · exact fun entry member => permits.wholeEntry (.refl target) (proper _ member)
      · rintro ⟨name, entry⟩ listed now walked
        have single : ProperName name := proper _ listed
        cases entry with
        | file data => rfl
        | folder content =>
            -- The entries are listed only once the target is made, which leaves the source as it was.
            have folder : session.disk.root.HasFolder (session.disk.place source ++ [name]) := by
              rw [← (still [name]).2, ← begunBecomes.place]
              exact ⟨content, Disk.at?_listed begunSound list listed⟩
            obtain ⟨nowSound, apart, avoids, lower⟩ :=
              walked.walksInto sound created (.of_apart apart avoids) within single folder
            simp only [Entry.isFolder, if_true]
            exact ih nowSound apart avoids lower (within.entry.pos folder) (by omega) (by omega)

/-! ## Walks that do not end -/

/-- In a folder that the walk goes into, the rest of the way to the target starts with a folder again. -/
theorem place_furtherDown {first next : String} {rest : Location}
    (same : ∀ path, now.disk.place path = session.disk.place path) (proper : ProperName first)
    (inside : session.disk.place target = session.disk.place source ++ first :: next :: rest)
    (kept : (first :: next :: rest).all Copy.keepsFolder = true)
    (there : now.disk.root.HasFolder (session.disk.place target)) :
    ∃ next' rest',
      now.disk.place (target.joinName first) =
        now.disk.place (source.joinName first) ++ next :: next' :: rest' ∧
      (next :: next' :: rest').all Copy.keepsFolder = true ∧
      now.disk.root.HasFolder (now.disk.place (source.joinName first) ++ [next]) := by
  obtain ⟨next', rest', turned⟩ : ∃ next' rest', rest ++ [first] = next' :: rest' :=
    List.exists_cons_of_ne_nil (by simp)
  refine ⟨next', rest', ?_, ?_, ?_⟩
  · rw [same, same, Disk.place_joinName _ _ proper, Disk.place_joinName _ _ proper, inside, ← turned]
    simp
  · rw [List.all_cons, Bool.and_eq_true] at kept
    rw [← turned]
    simpa [kept.1, and_comm] using kept
  · rw [same, Disk.place_joinName _ _ proper]
    have way : (session.disk.place source ++ [first] ++ [next]) ++ rest =
        session.disk.place target := by simp [inside]
    exact Tree.HasFolder.of_append (way ▸ there)

/-- A target two folders or more below the source, in a folder that the source holds, is met again one
folder further down: the walk goes into that folder, and there the target is in a folder as well. -/
theorem recipeFolder_endless {name next : String} {rest : Location}
    (stands : session.disk.root.HasFolder session.disk.here) (sound : session.disk.Sound)
    (inside : session.disk.place target = session.disk.place source ++ name :: next :: rest)
    (kept : (name :: next :: rest).all Copy.keepsFolder = true)
    (folder : session.disk.root.HasFolder (session.disk.place source ++ [name])) :
    (Copy.recipeFolder plan depth source target).run session ≠ .ok () after := by
  intro run
  induction depth generalizing source target session after name next rest with
  | zero => exact throw_ne_ok run
  | succ depth ih =>
      obtain ⟨_, tree, begun, ⟨⟩, list, creating, filling⟩ := Copy.recipeFolder_eq_ok.mp run
      obtain ⟨disk, created, rfl⟩ := createFolders_eq_ok.mp creating
      have there := Copy.hasFolder_created stands created sound
      have still := session.disk.createFolders_keepsFolders target _ stands
      rw [created] at still
      have begunBecomes := Copy.createFolders_becomes sound creating
      have begunSound := begunBecomes.sound sound
      have proper := (Disk.lists_of_list sound list).proper
      obtain ⟨⟨first, entry⟩, listed, rfl⟩ := (listsFolders_of_list sound list).complete _ [] folder
      have isFolder := ((listsFolders_of_list sound list).shown _ listed).mp folder
      have single : ProperName first := proper _ listed
      obtain ⟨now, later, walked, step⟩ := forM_step
        (fun other member => (confined_permits target false).recipeEntry (.refl target)
          (proper _ (Tree.mem_inOrder.mp member)))
        (Tree.mem_inOrder.mpr listed) filling
      have changes := walked begunSound
      have becomes := begunBecomes.trans changes.becomes
      have onward : Route.skippedFolders.contains first = false := by
        rw [List.all_cons, Bool.and_eq_true] at kept
        simpa [Copy.keepsFolder] using kept.1
      simp only [Copy.recipeEntry, isFolder, onward, Bool.false_eq_true, if_true, if_false] at step
      obtain ⟨next', rest', within, wayKept, wayFolder⟩ := place_furtherDown becomes.place single
        inside kept (changes.keepsFolders _ there)
      exact ih (becomes.here ▸ changes.keepsFolders _ still) (becomes.sound sound) within wayKept
        wayFolder step

end Walks

end Cookbook
