import Cookbook.Proofs.Convert.Independence
import Cookbook.Proofs.Convert.Reporting
import Cookbook.Proofs.Disk.Passing

/-!
Batches that come to their end. No failure of a conversion keeps a batch from writing its index; only a
folder in the place of the index does, or a destination that is gone. A conversion makes folders only on
the way to the recipe's folder and below it, so that both take a recipe that asks for the index's name,
or for the destination itself or the folder above it.
-/

namespace Cookbook

/-! ## New folders -/

/-- That a path goes on from another one with names. -/
structure Path.Inside (p folder : Path) : Prop where
  absolute : p.isAbsolute = folder.isAbsolute
  parts : ∃ rest, p.parts = folder.parts ++ rest ∧ ∀ step ∈ rest, ProperName step

namespace Path

variable {p q folder : Path}

theorem Inside.refl (folder : Path) : folder.Inside folder :=
  ⟨rfl, [], (List.append_nil _).symm, List.forall_mem_nil _⟩

theorem Inside.join (inside : p.Inside folder) (relative : q.isAbsolute = false)
    (proper : ∀ step ∈ q.parts, ProperName step) : (p.join q).Inside folder := by
  obtain ⟨rest, parts, restProper⟩ := inside.parts
  refine ⟨(isAbsolute_join relative).trans inside.absolute, rest ++ q.parts, ?_, ?_⟩
  · rw [parts_join relative, parts, List.append_assoc]
  · intro step member
    rw [List.mem_append] at member
    exact member.elim (restProper step) (proper step)

end Path

namespace Disk

variable {d between made : Disk} {p folder : Path} {place : Location}

theorem passes_inside (inside : p.Inside folder) (passes : d.Passes p place) :
    d.Passes folder place ∨ d.place folder <+: place := by
  obtain ⟨rest, parts, proper⟩ := inside.parts
  obtain ⟨steps, moves, starts, rfl⟩ := passes
  rw [parts] at starts
  obtain shorter | ⟨more, rfl⟩ := List.prefix_or_prefix_of_prefix starts (List.prefix_append _ _)
  · exact .inl ⟨steps, moves, shorter, by rw [inside.absolute]⟩
  · right
    rw [List.prefix_append_right_inj] at starts
    rw [inside.absolute, follow_append, follow_names fun step member => proper step (starts.subset member)]
    exact List.prefix_append _ _

/-- That a disk is another one with new folders only where a path passes and below where it leads. -/
structure Grows (folder : Path) (d made : Disk) : Prop where
  becomes : d.Becomes made made.files
  folders : ∀ place, made.root.HasFolder place →
    d.root.HasFolder place ∨ d.Passes folder place ∨ d.place folder <+: place

theorem Grows.of_fewer (becomes : d.Becomes made made.files) (fewer : made.KeepsFolders d) :
    d.Grows folder made :=
  ⟨becomes, fun place there => .inl (fewer place there)⟩

theorem Grows.trans (first : d.Grows folder between) (second : between.Grows folder made) :
    d.Grows folder made := by
  refine ⟨first.becomes.trans second.becomes, ?_⟩
  intro place there
  obtain earlier | passes | below := second.folders place there
  · exact first.folders place earlier
  · exact .inr (.inl (first.becomes.passes.mp passes))
  · rw [first.becomes.place] at below
    exact .inr (.inr below)

theorem createFolders_grows (sound : d.Sound) (inside : p.Inside folder) :
    d.Grows folder (d.createFolders p).1 := by
  have becomes := createFolders_becomes sound p
  refine ⟨becomes.own, ?_⟩
  intro place there
  exact (createFolders_folders sound p there).imp_right (passes_inside inside)

end Disk

/-- That a session is another one with new folders only where a path passes and below where it leads. -/
def Growing (folder : Path) (session after : Session) : Prop :=
  session.disk.Sound → session.disk.Grows folder after.disk

instance (folder : Path) : IsPreorder Session (Growing folder) where
  refl _ sound := .of_fewer (.refl sound) (.refl _)
  trans _ _ _ first second sound :=
    (first sound).trans (second ((first sound).becomes.sound sound))

theorem growing_permits (folder : Path) (clears : Bool) :
    Permits (Growing folder) (·.Inside folder) clears where
  unsound unsound sound := absurd sound unsound
  join inside relative proper := inside.join relative proper
  changesFile _ _ changes _ := .of_fewer changes.becomes fun _ => changes.folders.iff.mp
  createFolders inside sound _ := Disk.createFolders_grows sound inside
  remove _ _ sound removed _ := by
    have becomes := Disk.remove_becomes sound removed
    exact .of_fewer becomes.own (Disk.remove_fewerFolders sound removed)

open Action

namespace Converter

variable {converter : Converter} {source destination : Path} {begun session after : Session}
  {batch : Batch} {visit : Visit} {place : Location}

theorem convert_grows (converter : Converter) (source destination : Path) (session : Session) :
    SameDisk session ((converter.convert source destination).left session) ∨
      ∃ target, converter.target? source destination session = some target ∧
        Growing target session ((converter.convert source destination).left session) := by
  obtain same | ⟨descriptor, loaded, load, left⟩ := converter.convert_left source destination session
  · exact .inl same
  · have sameDisk : loaded.disk = session.disk := (Descriptor.load_sameDisk _ _).ok load
    refine .inr ⟨_, target?_of_load load, ?_⟩
    rw [left, Growing, ← sameDisk]
    exact carryOut_keeps (growing_permits _ _) (.refl _) source descriptor loaded

/-! ## The way to the index -/

/-- That a recipe which is visited is written below the destination, and not in the place of the index. -/
def ClearOfIndex (converter : Converter) (visit : Visit) : Prop :=
  ∀ descriptor, converter.descriptor? visit = some descriptor →
    converter.mode.destinationName descriptor ∉ [".", "..", Index.fileName]

theorem ClearOfIndex.target (own : converter.ClearOfIndex visit) (named : visit.folder.name ≠ "")
    {target : Path} (known : converter.target? visit.folder destination visit.session = some target) :
    ∃ name, target = destination.joinName name ∧ ProperName name ∧ name ≠ Index.fileName := by
  obtain ⟨descriptor, loaded, rfl⟩ := Option.map_eq_some_iff.mp known
  obtain ⟨single, nonempty⟩ := Mode.destinationName_of_load (run_eq_ok loaded) converter.mode
  have outside := own descriptor loaded
  simp only [List.mem_cons, List.not_mem_nil, or_false, not_or] at outside
  exact ⟨_, rfl, ⟨nonempty named, outside.1, outside.2.1, single⟩, outside.2.2⟩

/-- That the index can be written in the folder that a batch began with. -/
structure Indexable (destination : Path) (begun session : Session) : Prop where
  becomes : begun.disk.Becomes session.disk session.disk.files
  leads : session.disk.Leads destination
  free : ¬ session.disk.root.HasFolder (begun.disk.place destination ++ [Index.fileName])

theorem outside_of_leads {d : Disk} (leads : d.Leads destination)
    (empty : d.root.at? (d.place destination) = some (.folder .empty)) {front : List String}
    (starts : front <+: destination.parts) (name : String) :
    ¬ d.place destination ++ [name] <+:
      follow (if destination.isAbsolute then [] else d.here) front := by
  rintro ⟨rest, same⟩
  have there := Disk.walk_passes leads.way leads.folder starts
  rw [apply_ite List.reverse, List.reverse_nil, List.reverse_reverse, ← same, Tree.HasFolder,
    List.append_assoc, Tree.at?_append empty] at there
  obtain ⟨content, inside⟩ := there
  cases inside

theorem leaves_indexable (sound : begun.disk.Sound) (leads : begun.disk.Leads destination)
    (empty : begun.disk.root.at? (begun.disk.place destination) = some (.folder .empty))
    (named : visit.folder.name ≠ "") (own : converter.ClearOfIndex visit)
    (indexable : Indexable destination begun visit.session) :
    Indexable destination begun (converter.leaves destination visit) := by
  have place := indexable.becomes.place destination
  have visitSound := indexable.becomes.sound sound
  refine ⟨indexable.becomes.trans (leaves_becomes visitSound), ?_, ?_⟩
  · -- The way to the destination stays, for the folder of a recipe is below it.
    obtain same | ⟨target, known, confined⟩ :=
      converter.convert_changes visit.folder destination visit.session
    · have sameDisk : (converter.leaves destination visit).disk = visit.session.disk := same
      rw [sameDisk]
      exact indexable.leads
    · obtain ⟨name, rfl, proper, -⟩ := own.target named known
      have changes := confined visitSound
      refine indexable.leads.of_passed changes.becomes.same ?_
      intro front starts there
      refine changes.folders _ (fun _ => ?_) there
      rw [Disk.place_joinName _ _ proper, place, indexable.becomes.here]
      exact outside_of_leads leads empty starts name
  · -- And no folder gets the name of the index, for no recipe has it.
    obtain same | ⟨target, known, growing⟩ :=
      converter.convert_grows visit.folder destination visit.session
    · have sameDisk : (converter.leaves destination visit).disk = visit.session.disk := same
      rw [sameDisk]
      exact indexable.free
    · obtain ⟨name, rfl, proper, different⟩ := own.target named known
      intro there
      obtain earlier | passes | below := (growing visitSound).folders _ there
      · exact indexable.free earlier
      · obtain passes | same := (Disk.passes_joinName proper).mp passes
        · exact indexable.free (indexable.leads.opens _ passes)
        · rw [place] at same
          exact different (List.append_cancel_left same |> List.head_eq_of_cons_eq).symm
      · rw [Disk.place_joinName _ _ proper, place, List.prefix_append_right_inj] at below
        exact different (List.cons_prefix_cons.mp below).1

/-! ## Batches -/

/-- The session in which the index of a batch is written. -/
def visited (converter : Converter) (source destination : Path) (session : Session) : Session :=
  let begun := (createFolders destination).left session
  match findRecipes begun.disk source with
  | .ok recipes => (converter.convertEach destination {} recipes).left begun
  | .error _ => begun

theorem visited_of_found (converter : Converter) {recipes : List Path}
    (creating : (createFolders destination).run session = .ok () begun)
    (found : findRecipes begun.disk source = .ok recipes) :
    converter.visited source destination session =
        (converter.convertEach destination {} recipes).left begun ∧
      converter.history source destination session = converter.visits destination recipes begun := by
  rw [visited, history, left_of_ok creating, found]
  exact ⟨rfl, rfl⟩

theorem visited_indexable {recipes : List Path} (begunSound : begun.disk.Sound)
    (creating : (createFolders destination).run session = .ok () begun)
    (found : findRecipes begun.disk source = .ok recipes) (leads : begun.disk.Leads destination)
    (empty : begun.disk.root.at? (begun.disk.place destination) = some (.folder .empty))
    (own : ∀ visit ∈ converter.history source destination session, converter.ClearOfIndex visit) :
    Indexable destination begun (converter.visited source destination session) := by
  obtain ⟨ended, history⟩ := converter.visited_of_found creating found
  rw [history] at own
  rw [ended]
  have start : Indexable destination begun begun := by
    refine ⟨.refl begunSound, leads, ?_⟩
    rintro ⟨content, there⟩
    rw [Tree.at?_append empty] at there
    cases there
  refine convertEach_keeps {} start fun visit member indexable => ?_
  have named := (visits_placed begunSound found visit member).1
  exact leaves_indexable begunSound leads empty named (own visit member) indexable

theorem createFolders_isFolder (sound : session.disk.Sound)
    (creating : (createFolders destination).run session = .ok () begun)
    (folder : session.disk.isFolder source = true) : begun.disk.isFolder source = true := by
  have created := Copy.createFolders_becomes sound creating
  exact Disk.isFolder_mono created.same ((createFolders_keepsFolders _).ok creating) folder

theorem writeIndex_ok_iff (becomes : begun.disk.Becomes session.disk session.disk.files)
    (accepted : begun.disk.refuse? (Batch.indexPath destination) = none) (text : String) :
    (∃ after, (writeText (Batch.indexPath destination) text).run session = .ok () after) ↔
      session.disk.Leads destination ∧
        ¬ session.disk.root.HasFolder (begun.disk.place destination ++ [Index.fileName]) := by
  have usable : session.disk.refuse? (destination.joinName Index.fileName) = none := by
    rw [becomes.refuse?]
    exact accepted
  have short : Index.fileName.utf8ByteSize ≤ Disk.nameLimit := by decide
  have written := Disk.writeFile_ok_iff (d := session.disk) (p := destination)
    Index.fileName_proper text.toUTF8
  simp only [usable, short, true_and, becomes.place] at written
  rw [← written]
  constructor
  · rintro ⟨after, run⟩
    obtain ⟨disk, written, -⟩ := change_eq_ok.mp run
    exact ⟨disk, written⟩
  · rintro ⟨disk, written⟩
    exact ⟨_, change_eq_ok.mpr ⟨disk, written, rfl⟩⟩

/-- A batch into an empty folder reports, with the index in place and every failure put down, if all
folders below the source have usable paths and no recipe asks for a folder other than one of its own
beside the index. It fails exactly if such a path cannot be used, or if after all visits the destination
is gone or a folder is in the place of the index. -/
theorem batch_finishes (sound : session.disk.Sound) (folder : session.disk.isFolder source = true)
    (creating : (createFolders destination).run session = .ok () begun)
    (leads : begun.disk.Leads destination)
    (empty : begun.disk.root.at? (begun.disk.place destination) = some (.folder .empty))
    (accepted : begun.disk.refuse? (Batch.indexPath destination) = none) :
    let history := converter.history source destination session
    let ended := converter.visited source destination session
    (begun.disk.Walkable source → (∀ visit ∈ history, converter.ClearOfIndex visit) →
      ∃ batch after, (converter.convertAll source destination).run session = .ok batch after) ∧
    ((∃ batch after, (converter.convertAll source destination).run session = .ok batch after) ↔
      begun.disk.Walkable source ∧ ended.disk.Leads destination ∧
        ¬ ended.disk.root.HasFolder (begun.disk.place destination ++ [Index.fileName])) ∧
    ∀ batch after, (converter.convertAll source destination).run session = .ok batch after →
      after.disk.readText (Batch.indexPath destination) =
        .ok (Index.render batch.index (converter.mode.target?.map (·.release))) ∧
      batch.failed = history.filterMap fun visit =>
        (converter.failure? destination visit).map (visit.folder.name, ·) := by
  have begunSound : begun.disk.Sound := (Copy.createFolders_becomes sound creating).sound sound
  have walkable := findRecipes_ok_iff (createFolders_isFolder sound creating folder)
  have reports : (∃ batch after,
      (converter.convertAll source destination).run session = .ok batch after) ↔
      begun.disk.Walkable source ∧
        (converter.visited source destination session).disk.Leads destination ∧
        ¬ (converter.visited source destination session).disk.root.HasFolder
          (begun.disk.place destination ++ [Index.fileName]) := by
    rw [← walkable]
    constructor
    · rintro ⟨batch, after, run⟩
      obtain ⟨begun', recipes, creating', found, -, -, writing⟩ := convertAll_eq_ok run
      rw [creating] at creating'
      cases creating'
      rw [(converter.visited_of_found creating found).1]
      have ended := convertEach_becomes begunSound converter destination recipes
      exact ⟨⟨recipes, found⟩, (writeIndex_ok_iff ended accepted _).mp ⟨after, writing⟩⟩
    · rintro ⟨⟨recipes, found⟩, writable⟩
      rw [(converter.visited_of_found creating found).1] at writable
      have ended := convertEach_becomes begunSound converter destination recipes
      obtain ⟨after, writing⟩ := (writeIndex_ok_iff ended accepted _).mpr writable
      exact ⟨_, after, convertAll_run folder creating found (convertEach_run {} recipes begun) writing⟩
  refine ⟨?_, reports, ?_⟩
  · intro usable own
    obtain ⟨recipes, found⟩ := walkable.mpr usable
    have indexable := visited_indexable begunSound creating found leads empty own
    exact reports.mpr ⟨usable, indexable.leads, indexable.free⟩
  · intro batch after run
    obtain ⟨begun', recipes, -, -, history, reported, -⟩ := convertAll_eq_ok run
    refine ⟨index_read sound run, ?_⟩
    rw [history, reported, failed_foldl]
    rfl

theorem batch_finishes_mixedRecipes :
    ∃ batch after,
      ((releasing false).convertAll ⟨"recipes"⟩ ⟨"out"⟩).run mixedRecipes = .ok batch after ∧
      after.disk.readText (Batch.indexPath ⟨"out"⟩) =
        .ok (Index.render batch.index (some ⟨8, 1, 0, .final, 0⟩)) ∧
      batch.failed.map (·.1) = ["bad"] := by
  have creating : (createFolders ⟨"out"⟩).run mixedRecipes =
      .ok () ((createFolders ⟨"out"⟩).left mixedRecipes) := run_eq_ok (by decide +kernel)
  generalize ready : (createFolders ⟨"out"⟩).left mixedRecipes = begun at creating
  obtain ⟨recipesFolder, outFolder, empty, accepted⟩ :
      begun.disk.isFolder ⟨"recipes"⟩ = true ∧ begun.disk.isFolder ⟨"out"⟩ = true ∧
        begun.disk.root.at? (begun.disk.place ⟨"out"⟩) = some (.folder .empty) ∧
        begun.disk.refuse? (Batch.indexPath ⟨"out"⟩) = none := by
    rw [← ready]
    decide +kernel
  have walkable : begun.disk.Walkable ⟨"recipes"⟩ := by
    refine (findRecipes_ok_iff recipesFolder).mp
      ⟨[⟨"recipes/bad"⟩, ⟨"recipes/new"⟩, ⟨"recipes/old"⟩], except_toOption_eq_some.mp ?_⟩
    rw [← ready]
    decide +kernel
  obtain ⟨-, -, -, bad, -, named⟩ := mixedRecipes_history
  obtain ⟨finishes, -, reports⟩ := @batch_finishes (releasing false) ⟨"recipes"⟩ ⟨"out"⟩ begun
    mixedRecipes mixedRecipes_sound (by decide +kernel) creating (Disk.isFolder_iff.mp outFolder).2
    empty accepted
  obtain ⟨batch, after, run⟩ := finishes walkable fun visit member descriptor loads =>
    named descriptor (List.mem_filterMap.mpr ⟨visit, member, loads⟩)
  obtain ⟨index, failed⟩ := reports batch after run
  refine ⟨batch, after, run, index, ?_⟩
  rw [failed, failed_names]
  exact bad

/-- A recipe that has the name of the index and a template that is no text, next to a good one. -/
def namedLikeIndex : Session where
  disk := {
    root := .folder "recipes"
      (.folder "README.md"
        (.file "recipe_metadata.toml" ⟨"[agpVersion]\nmin = \"8.1.0\"".toUTF8, false⟩
          (.file "build.gradle" ⟨⟨#[255]⟩, false⟩ .empty))
        (.folder "good"
          (.file "recipe_metadata.toml" ⟨"[agpVersion]\nmin = \"8.1.0\"".toUTF8, false⟩ .empty)
          .empty))
      (.folder "out" .empty .empty)
    here := [] }

theorem batch_finishes_fails :
    ¬ ∀ (converter : Converter) (source destination : Path) (session : Session),
      session.disk.Sound → session.disk.isFolder source = true →
      session.disk.isFolder destination = true → session.disk.list destination = .ok .empty →
      Apart (session.disk.place source) (session.disk.place destination) →
      session.disk.refuse? (Batch.indexPath destination) = none →
      session.disk.Walkable source →
      ∃ batch after, (converter.convertAll source destination).run session = .ok batch after := by
  intro reports
  have walkable : namedLikeIndex.disk.Walkable ⟨"recipes"⟩ := (findRecipes_ok_iff (by decide +kernel)).mp
    ⟨[⟨"recipes/README.md"⟩, ⟨"recipes/good"⟩], except_toOption_eq_some.mp (by decide +kernel)⟩
  obtain ⟨batch, after, run⟩ := reports sparing ⟨"recipes"⟩ ⟨"out"⟩ namedLikeIndex
    ⟨by decide +kernel, by simp [namedLikeIndex]⟩ (by decide +kernel) (by decide +kernel)
    (by decide +kernel) (by decide +kernel) (by decide +kernel) walkable
  have stopped : ((sparing.convertAll ⟨"recipes"⟩ ⟨"out"⟩).value? namedLikeIndex).isNone := by
    decide +kernel
  rw [value?, run] at stopped
  cases stopped

end Converter

end Cookbook
