import Cookbook.Proofs.Convert.Sources

/-!
Links of the index that a batch writes. Each stems from a recipe that was converted, whose folder is in
the destination at the end; the link names that folder exactly if the mode writes the recipe to the
destination that its descriptor names.
-/

namespace Cookbook

open Action

/-! ## Links of an index -/

theorem OrderedMap.mem_alterEntries {κ ν : Type} [Ord κ] {key : κ} {value : Option ν → ν}
    {entries : List (κ × ν)} {entry : κ × ν} (member : entry ∈ alterEntries key value entries) :
    entry ∈ entries ∨ entry.2 = value none ∨ ∃ old ∈ entries, entry.2 = value (some old.2) := by
  induction entries with
  | nil =>
      obtain rfl := List.mem_singleton.mp member
      exact .inr (.inl rfl)
  | cons first rest ih =>
      rw [alterEntries] at member
      split at member
      · obtain rfl | old := List.mem_cons.mp member
        · exact .inr (.inl rfl)
        · exact .inl old
      · obtain rfl | old := List.mem_cons.mp member
        · exact .inr (.inr ⟨first, List.mem_cons_self, rfl⟩)
        · exact .inl (List.mem_cons_of_mem _ old)
      · obtain rfl | later := List.mem_cons.mp member
        · exact .inl List.mem_cons_self
        · obtain old | fresh | ⟨old, inside, altered⟩ := ih later
          · exact .inl (List.mem_cons_of_mem _ old)
          · exact .inr (.inl fresh)
          · exact .inr (.inr ⟨old, List.mem_cons_of_mem _ inside, altered⟩)

namespace Index

variable {index : Index} {link added : Link} {keyword : Keyword}

/-- The links in the lines of the index, in their order. -/
def links (index : Index) : List Link :=
  index.categories.flatMap fun category => match index.get? category with
    | none => []
    | some names => names.entries.flatMap (·.2)

def Lists (index : Index) (link : Link) : Prop :=
  ∃ category ∈ index.entries, ∃ name ∈ category.2.entries, link ∈ name.2

theorem lists_of_mem_links (member : link ∈ index.links) : index.Lists link := by
  obtain ⟨category, -, inside⟩ := List.mem_flatMap.mp member
  split at inside
  · cases inside
  · next names found =>
      obtain ⟨entry, known, rfl⟩ := Option.map_eq_some_iff.mp found
      obtain ⟨name, listed, links⟩ := List.mem_flatMap.mp inside
      exact ⟨entry, List.mem_of_find?_eq_some known, name, listed, links⟩

theorem lists_addLink (listed : (index.addLink keyword added).Lists link) :
    index.Lists link ∨ link = added := by
  obtain ⟨category, inCategories, name, inNames, member⟩ := listed
  -- A category is an old one, or the altered one, which was made from an old one or from nothing.
  have altered {old : OrderedMap String (List Link)} (inNames : name ∈ (old.alter keyword.name
      fun links => links.getD [] ++ [added]).entries) :
      (∃ name ∈ old.entries, link ∈ name.2) ∨ link = added := by
    obtain same | fresh | ⟨other, inside, extended⟩ := OrderedMap.mem_alterEntries inNames
    · exact .inl ⟨name, same, member⟩
    · rw [fresh] at member
      exact .inr (by simpa using member)
    · rw [extended, Option.getD_some, List.mem_append, List.mem_singleton] at member
      exact member.imp_left fun old => ⟨other, inside, old⟩
  obtain same | fresh | ⟨old, inside, changed⟩ := OrderedMap.mem_alterEntries inCategories
  · exact .inl ⟨category, same, name, inNames, member⟩
  · rw [fresh] at inNames
    obtain ⟨other, nothing, -⟩ | new := altered inNames
    · cases nothing
    · exact .inr new
  · rw [changed] at inNames
    exact (altered inNames).imp_left fun ⟨other, inOld, links⟩ => ⟨old, inside, other, inOld, links⟩

theorem lists_add {descriptor : Descriptor} (listed : (index.add descriptor).Lists link) :
    index.Lists link ∨ link = ⟨descriptor.title, descriptor.destination⟩ := by
  unfold add at listed
  generalize descriptor.keywords.filterMap Keyword.parse? = keywords at listed
  induction keywords generalizing index with
  | nil => exact .inl listed
  | cons keyword keywords ih =>
      obtain before | new := ih listed
      · exact lists_addLink before
      · exact .inr new

end Index

namespace Converter

variable {converter : Converter} {source destination : Path} {session after : Session}
  {batch : Batch} {visit : Visit} {conversion : Conversion}

theorem lists_foldl {visits : List Visit} {link : Link}
    (listed : (visits.foldl (converter.note destination) batch).index.Lists link) :
    batch.index.Lists link ∨ ∃ visit ∈ visits, ∃ conversion,
      converter.conversion? destination visit = some conversion ∧
        link = ⟨conversion.descriptor.title, conversion.descriptor.destination⟩ := by
  induction visits generalizing batch with
  | nil => exact .inl listed
  | cons visit visits ih =>
      obtain before | ⟨later, member, stems⟩ := ih listed
      · obtain ⟨-, -, same⟩ | ⟨conversion, converted, -, extended⟩ :=
          converter.note_cases destination batch visit
        · rw [same] at before
          exact .inl before
        · rw [extended] at before
          obtain old | new := Index.lists_add before
          · exact .inl old
          · exact .inr ⟨visit, List.mem_cons_self, conversion, converted, new⟩
      · exact .inr ⟨later, List.mem_cons_of_mem _ member, stems⟩

/-! ## Batches that keep apart -/

/-- That the destination is apart from the source and the recipes found there have names of their own,
both of their folders and of the destinations they ask for, which are no steps of a path. -/
structure Spread (converter : Converter) (source destination : Path) (session : Session) : Prop where
  sound : session.disk.Sound
  apart : Apart (session.disk.place source) (session.disk.place destination)
  proper : ∀ visit ∈ converter.history source destination session, ∀ descriptor,
    session.disk.Describes visit.folder descriptor → ProperName descriptor.destination
  distinct : (converter.history source destination session).Pairwise fun first second =>
    first.folder.name ≠ second.folder.name ∧ ∀ descriptor other,
      session.disk.Describes first.folder descriptor → session.disk.Describes second.folder other →
        descriptor.destination ≠ other.destination

theorem Spread.describes (spread : converter.Spread source destination session)
    (run : (converter.convertAll source destination).run session = .ok batch after)
    (member : visit ∈ converter.history source destination session) {descriptor : Descriptor}
    (describes : visit.session.disk.Describes visit.folder descriptor) :
    session.disk.Describes visit.folder descriptor ∧
      ProperName (converter.mode.destinationName descriptor) := by
  have proper : ∀ visit ∈ converter.history source destination session, ∀ descriptor,
      session.disk.Describes visit.folder descriptor →
        ProperName (converter.mode.destinationName descriptor) := by
    intro visit member descriptor describes
    have named := (history_reached spread.sound run visit member).2
    exact Mode.destinationName_proper named describes (spread.proper visit member descriptor describes) _
  have before := history_describes spread.sound run (fun visit member descriptor describes =>
    .of_apart (proper visit member descriptor describes) spread.apart) visit member descriptor describes
  exact ⟨before, proper visit member descriptor before⟩

theorem converted_of_mem_links
    (run : (converter.convertAll source destination).run session = .ok batch after) {link : Link}
    (member : link ∈ Index.links batch.index) :
    ∃ visit ∈ converter.history source destination session, ∃ conversion,
      converter.conversion? destination visit = some conversion ∧
        link = ⟨conversion.descriptor.title, conversion.descriptor.destination⟩ := by
  obtain ⟨begun, recipes, -, -, history, reported, -⟩ := convertAll_eq_ok run
  rw [history]
  rw [reported] at member
  obtain ⟨category, nothing, -⟩ | stems := lists_foldl (Index.lists_of_mem_links member)
  · cases nothing
  · exact stems

theorem Spread.folder_lasts (spread : converter.Spread source destination session)
    (run : (converter.convertAll source destination).run session = .ok batch after)
    (member : visit ∈ converter.history source destination session)
    (converted : converter.conversion? destination visit = some conversion) :
    after.disk.isFolder conversion.destination = true := by
  have known : ∀ visit ∈ converter.history source destination session, ∀ descriptor,
      visit.session.disk.Describes visit.folder descriptor →
        session.disk.Describes visit.folder descriptor ∧
          ProperName (converter.mode.destinationName descriptor) :=
    fun visit member descriptor describes => spread.describes run member describes
  have distinct := spread.distinct
  obtain ⟨earlier, later, split⟩ := List.append_of_mem member
  rw [split] at known distinct
  obtain ⟨loaded, load, name⟩ := conversion_destination converted
  obtain ⟨describes, proper⟩ := known visit (by simp) _ (Descriptor.load_describes load)
  refine converted_folder_lasts spread.sound run split converted proper ?_
  intro _ other inLater target aimed onto
  obtain ⟨descriptor, loading, rfl⟩ := Option.map_eq_some_iff.mp aimed
  obtain ⟨describesOther, properOther⟩ :=
    known other (by simp [inLater]) _ (Descriptor.load_describes (run_eq_ok loading))
  obtain ⟨folders, destinations⟩ :=
    (List.pairwise_cons.mp (List.pairwise_append.mp distinct).2.1).1 other inLater
  rw [name, Disk.place_joinName _ _ proper, Disk.place_joinName _ _ properOther,
    List.prefix_append_right_inj] at onto
  exact Mode.destinationName_ne describes describesOther folders
    (destinations _ _ describes describesOther) _ (List.singleton_inj.mp (onto.eq_of_length rfl)).symm

end Converter

/-- That a link leads to a recipe: it names a folder directly in the destination, and that is where the
recipe is. -/
structure Link.Resolves (link : Link) (d : Disk) (destination recipe : Path) : Prop where
  folder : d.isFolder (destination.joinName link.folder) = true
  direct : d.place (destination.joinName link.folder) = d.place destination ++ [link.folder]
  same : d.place (destination.joinName link.folder) = d.place recipe

theorem Link.resolves_iff {link : Link} {d : Disk} {destination : Path} {name : String}
    (proper : ProperName name) (folder : d.isFolder (destination.joinName name) = true) :
    link.Resolves d destination (destination.joinName name) ↔ link.folder = name := by
  constructor
  · intro ⟨_, direct, same⟩
    rw [direct, Disk.place_joinName _ _ proper, List.append_cancel_left_eq] at same
    exact List.singleton_inj.mp same
  · rintro rfl
    exact ⟨folder, Disk.place_joinName _ _ proper, rfl⟩

namespace Converter

variable {converter : Converter} {source destination : Path} {session after : Session}
  {batch : Batch} {visit : Visit} {conversion : Conversion}

/-- The index that a batch writes has links to recipes that were converted, whose folders are there. Each
link leads to its recipe exactly if the batch is a release or the recipe asks for a destination that has
the name of its own folder. -/
theorem links_resolve_iff (spread : converter.Spread source destination session)
    (run : (converter.convertAll source destination).run session = .ok batch after) :
    (∃ data, after.disk.files (session.disk.place (Batch.indexPath destination)) = some data ∧
      data.bytes = (Index.render batch.index (converter.mode.target?.map (·.release))).toUTF8) ∧
    ∀ link ∈ Index.links batch.index, ∃ visit ∈ converter.history source destination session,
      ∃ conversion, converter.conversion? destination visit = some conversion ∧
        link = ⟨conversion.descriptor.title, conversion.descriptor.destination⟩ ∧
        after.disk.isFolder conversion.destination = true ∧
        (link.Resolves after.disk destination conversion.destination ↔
          converter.mode.target? ≠ none ∨ conversion.descriptor.destination = visit.folder.name) := by
  refine ⟨index_written spread.sound run, ?_⟩
  intro link member
  obtain ⟨visit, inHistory, conversion, converted, rfl⟩ := converted_of_mem_links run member
  have folder := spread.folder_lasts run inHistory converted
  refine ⟨visit, inHistory, conversion, converted, rfl, folder, ?_⟩
  obtain ⟨loaded, load, name⟩ := conversion_destination converted
  obtain ⟨-, proper⟩ := spread.describes run inHistory (Descriptor.load_describes load)
  rw [name] at folder ⊢
  rw [Link.resolves_iff proper folder, ← Descriptor.load_folderName load]
  cases converter.mode <;> simp [Mode.destinationName, Mode.target?]

/-- A descriptor that asks for a destination of another name. -/
def renamed : String :=
  "destinationFolder = \"released\"\n[agpVersion]\nmin = \"8.1.0\"\n" ++
    "[indexMetadata]\nindex = [\"Themes/Sources\"]\n"

def renamedRecipe : Session where
  disk := {
    root := .folder "recipes"
      (.folder "a" (.file "recipe_metadata.toml" ⟨renamed.toUTF8, false⟩ .empty) .empty)
      (.folder "out" .empty .empty)
    here := [] }

def listing (mode : Mode) : Converter where
  mode
  context := singleLineContext
  withWrapper := false

theorem renamed_parsed (path : Path) (lookup : ReleaseLine → Except Failure Release) :
    Descriptor.parse renamed "a" path lookup =
      .ok ⟨"a", "a", "released", ⟨8, 1, 0, .final, 0⟩, none, [], none, ["Themes/Sources"]⟩ := by
  rfl

theorem renamedRecipe_history (mode : Mode) :
    (listing mode).history ⟨"recipes"⟩ ⟨"out"⟩ renamedRecipe =
      [⟨⟨"recipes/a"⟩, (createFolders ⟨"out"⟩).left renamedRecipe⟩] := by
  have found : findRecipes ((createFolders ⟨"out"⟩).left renamedRecipe).disk ⟨"recipes"⟩ =
      .ok [⟨"recipes/a"⟩] := except_toOption_eq_some.mp (by decide +kernel)
  rw [history, found]
  rfl

theorem renamedRecipe_spread (mode : Mode) :
    (listing mode).Spread ⟨"recipes"⟩ ⟨"out"⟩ renamedRecipe where
  sound := ⟨by decide +kernel, by simp [renamedRecipe]⟩
  apart := by decide +kernel
  proper visit member descriptor describes := by
    rw [renamedRecipe_history, List.mem_singleton] at member
    subst member
    obtain ⟨data, content, lookup, here, decoded, parsed⟩ := describes
    have written : renamedRecipe.disk.files
        (renamedRecipe.disk.place ⟨"recipes/a"⟩ ++ [Descriptor.fileName]) =
          some ⟨renamed.toUTF8, false⟩ := by decide +kernel
    have text : String.fromUTF8? renamed.toUTF8 = some renamed := by decide +kernel
    have name : Path.name ⟨"recipes/a"⟩ = "a" := by decide +kernel
    rw [written, Option.some.injEq] at here
    subst here
    rw [text, Option.some.injEq] at decoded
    subst decoded
    rw [name, renamed_parsed, Except.ok.injEq] at parsed
    subst parsed
    decide +kernel
  distinct := by
    rw [renamedRecipe_history]
    exact List.pairwise_singleton _ _

theorem renamedRecipe_listed (mode : Mode) (known : mode = .source ∨ mode = Mode.anyRelease) :
    ∃ batch after,
      ((listing mode).convertAll ⟨"recipes"⟩ ⟨"out"⟩).run renamedRecipe = .ok batch after ∧
      Index.links batch.index = [⟨"a", "released"⟩] ∧
      (after.disk.isFolder (Path.joinName ⟨"out"⟩ "released") = !mode.isSource) := by
  obtain ⟨given, folder⟩ :
      let batch := (listing mode).convertAll ⟨"recipes"⟩ ⟨"out"⟩
      (batch.value? renamedRecipe).map (fun batch => Index.links batch.index) =
          some [⟨"a", "released"⟩] ∧
        (batch.left renamedRecipe).disk.isFolder (Path.joinName ⟨"out"⟩ "released") = !mode.isSource := by
    obtain rfl | rfl := known <;> decide +kernel
  obtain ⟨batch, given, links⟩ := Option.map_eq_some_iff.mp given
  exact ⟨batch, _, run_eq_ok given, links, folder⟩

theorem links_resolve_iff_renamedRecipe :
    ∃ batch after, (listing Mode.anyRelease).Spread ⟨"recipes"⟩ ⟨"out"⟩ renamedRecipe ∧
      ((listing Mode.anyRelease).convertAll ⟨"recipes"⟩ ⟨"out"⟩).run renamedRecipe = .ok batch after ∧
      Index.links batch.index = [⟨"a", "released"⟩] ∧
      ∃ recipe, Link.Resolves ⟨"a", "released"⟩ after.disk ⟨"out"⟩ recipe := by
  have spread := renamedRecipe_spread Mode.anyRelease
  obtain ⟨batch, after, run, links, -⟩ := renamedRecipe_listed Mode.anyRelease (.inr rfl)
  refine ⟨batch, after, spread, run, links, ?_⟩
  obtain ⟨visit, -, conversion, -, -, -, resolves⟩ :=
    (links_resolve_iff spread run).2 ⟨"a", "released"⟩ (by simp [links])
  exact ⟨conversion.destination, resolves.mpr (.inl (by decide))⟩

theorem links_resolve_fails :
    ¬ ∀ (converter : Converter) (source destination : Path) (session after : Session) (batch : Batch),
      converter.Spread source destination session →
      isEmptyFolder session.disk destination false = .ok true →
      (converter.convertAll source destination).run session = .ok batch after →
      ∀ link ∈ Index.links batch.index, ∃ visit ∈ converter.history source destination session,
        ∃ conversion, converter.conversion? destination visit = some conversion ∧
          link = ⟨conversion.descriptor.title, conversion.descriptor.destination⟩ ∧
          link.Resolves after.disk destination conversion.destination := by
  intro resolve
  obtain ⟨batch, after, run, links, absent⟩ := renamedRecipe_listed .source (.inl rfl)
  have nothing : isEmptyFolder renamedRecipe.disk ⟨"out"⟩ false = .ok true :=
    except_toOption_eq_some.mp (by decide +kernel)
  obtain ⟨visit, -, conversion, -, -, resolves⟩ := resolve _ _ _ _ _ _
    (renamedRecipe_spread .source) nothing run ⟨"a", "released"⟩ (by simp [links])
  have folder := absent.symm.trans resolves.folder
  cases folder

end Converter

end Cookbook
