import Cookbook.Proofs.Convert.Preserving
import Cookbook.Proofs.Convert.Skipping
import Cookbook.Proofs.Convert.Twins

/-!
Recipes of a batch that have folders of their own do not meet. Each ends as it does when it is converted
alone, and leaves the same in its folder, whatever becomes of the others.
-/

namespace Cookbook

open Action

/-! ## Loading -/

/-- That a disk is another one with a folder emptied. -/
def Emptied (base : Location) (first second : Session) : Prop :=
  first.disk.masked Disk.nothing base = second.disk

variable {context : Context} {base : Location} {first second : Session} {folder path : Path}

section Emptied

theorem Emptied.here (emptied : Emptied base first second) : first.disk.here = second.disk.here := by
  have same := congrArg Disk.here emptied
  exact same

variable (emptied : Emptied base first second) (sees : second.disk.Sees Disk.nothing base path)

include emptied sees

theorem Emptied.sees_of : first.disk.Sees Disk.nothing base path :=
  sees.congr emptied.here rfl List.prefix_rfl

theorem Emptied.isFile : first.disk.isFile path = second.disk.isFile path := by
  rw [← emptied, Disk.isFile_masked (emptied.sees_of sees)]

theorem Emptied.isFolder : first.disk.isFolder path = second.disk.isFolder path := by
  rw [← emptied, Disk.isFolder_masked (emptied.sees_of sees)]

theorem Emptied.readText : first.disk.readText path = second.disk.readText path := by
  rw [← emptied, Disk.readText_masked (emptied.sees_of sees)]

end Emptied

theorem readFeed_emptied (emptied : Emptied base first second)
    (sees : second.disk.Sees Disk.nothing base context.config.feed) :
    context.readFeed.outcome first = context.readFeed.outcome second := by
  have asked : AlikeIn (Emptied base) (isFile context.config.feed) first second :=
    alikeIn_isFile emptied (emptied.isFile sees)
  have alike : AlikeIn (Emptied base) context.readFeed first second := by
    unfold Context.readFeed
    refine asked.bind ?_
    intro found _
    split
    · have read : AlikeIn (Emptied base) (readText context.config.feed) first second :=
        alikeIn_look emptied (emptied.readText sees)
      exact read.bind fun _ _ => alikeIn_ofExcept read.left _
    · exact alikeIn_throw asked.left _
  exact alike.outcome

/-- That a disk is another one with a folder emptied, and that the same releases are taken to be
published. -/
structure Beside (context : Context) (base : Location) (first second : Session) : Prop where
  emptied : Emptied base first second
  feed : SameFeed context second first

theorem published_beside : Alike (Beside context base) context.published := by
  intro first second beside
  refine ⟨beside.feed, ?_, ?_⟩
  · have firstDisk := context.published_sameDisk first
    have secondDisk := context.published_sameDisk second
    rw [Emptied, firstDisk, secondDisk]
    exact beside.emptied
  · have firstFeed := context.published_sameFeed first
    have secondFeed := context.published_sameFeed second
    exact firstFeed.trans (beside.feed.trans secondFeed.symm)

theorem load_beside (sees : second.disk.Sees Disk.nothing base (folder.joinName Descriptor.fileName))
    (beside : Beside context base first second) :
    AlikeIn (Beside context base) (Descriptor.load folder context) first second := by
  have asked : AlikeIn (Beside context base) (isFile (folder.joinName Descriptor.fileName)) first
      second := alikeIn_isFile beside (beside.emptied.isFile sees)
  unfold Descriptor.load
  refine asked.bind ?_
  intro found _
  split
  · have read : AlikeIn (Beside context base) (readText (folder.joinName Descriptor.fileName)) first
        second := alikeIn_look beside (beside.emptied.readText sees)
    refine read.bind ?_
    intro content _
    split
    · next line _ =>
        have published := published_beside _ _ read.left
        have lookup : AlikeIn (Beside context base) (context.publishedRelease line) _ _ :=
          published.bind fun _ _ => alikeIn_ofExcept published.left _
        have latest := alikeIn_attempt lookup
        exact latest.bind fun _ _ => alikeIn_ofExcept latest.left _
    · have latest := alikeIn_pure read.left
        (.error (.missingPublishedRelease none) : Except Failure Release)
      exact latest.bind fun _ _ => alikeIn_ofExcept latest.left _
  · exact alikeIn_throw asked.left _

namespace Converter

variable {converter : Converter} {source destination : Path} {begun session after : Session}
  {recipes folders : List Path} {batch : Batch} {name : String}

/-- The name of the folder that the recipe in a folder would be written to, if its descriptor can be
loaded. -/
def targetName? (converter : Converter) (session : Session) (folder : Path) : Option String :=
  ((Descriptor.load folder converter.context).value? session).map converter.mode.destinationName

/-- What is in the destination under a name. -/
def held (destination : Path) (session : Session) (name : String) : Option Entry :=
  session.disk.root.at? (session.disk.place destination ++ [name])

/-- That a batch begins with an empty folder, in which neither the Gradle wrapper nor the feed is looked
for. -/
structure Ground (converter : Converter) (destination : Path) (begun : Session) : Prop where
  leads : begun.disk.Leads destination
  empty : begun.disk.root.at? (begun.disk.place destination) = some (.folder .empty)
  resources : begun.disk.Aside (begun.disk.place destination)
    converter.context.config.gradleResourcesPath
  feed : begun.disk.Sees Disk.nothing (begun.disk.place destination) converter.context.config.feed

/-- That a session has gone on from another one and changed its disk in the destination only. -/
structure Onward (converter : Converter) (destination : Path) (begun session : Session) : Prop where
  sound : session.disk.Sound
  beside : Beside converter.context (begun.disk.place destination) session begun

theorem Onward.place (onward : Onward converter destination begun session) (path : Path) :
    session.disk.place path = begun.disk.place path :=
  Disk.place_congr onward.beside.emptied.here path

theorem Onward.of_sameDisk (onward : Onward converter destination begun session)
    (sameDisk : SameDisk session after) (sameFeed : SameFeed converter.context session after) :
    Onward converter destination begun after := by
  refine ⟨sameDisk.symm ▸ onward.sound, ?_, ?_⟩
  · rw [Emptied, sameDisk]
    exact onward.beside.emptied
  · exact trans_of (SameFeed converter.context) onward.beside.feed sameFeed

theorem sees_of_leads {d : Disk} {shown : String → Bool} (leads : d.Leads path)
    (empty : d.root.at? base = some (.folder .empty)) : d.Sees shown base path := by
  intro steps starts name rest same
  have there := Disk.walk_passes leads.way leads.folder starts
  rw [apply_ite List.reverse, List.reverse_nil, List.reverse_reverse, same, Tree.HasFolder,
    Tree.at?_append empty] at there
  obtain ⟨content, inside⟩ := there
  cases inside

theorem Ground.stage (ground : Ground converter destination begun) : begun.disk.Stage destination :=
  ⟨ground.leads, sees_of_leads ground.leads ground.empty⟩

theorem Ground.held (ground : Ground converter destination begun) (name : String) :
    held destination begun name = none := by
  rw [Converter.held, Tree.at?_append ground.empty]
  rfl

theorem Ground.masked (ground : Ground converter destination begun) (shown : String → Bool) :
    begun.disk.masked shown (begun.disk.place destination) = begun.disk :=
  Disk.masked_of_all fun name there => absurd (ground.held name) there

/-- That the conversion of a recipe ends as in the session that a batch begins with and leaves the same
in the recipe's folder, and all else as it was. -/
structure Independent (converter : Converter) (destination : Path) (begun : Session) (folder : Path)
    (session : Session) : Prop where
  outcome : (converter.convert folder destination).outcome session =
    (converter.convert folder destination).outcome begun
  onward : Onward converter destination begun ((converter.convert folder destination).left session)
  own : ∀ name, converter.targetName? begun folder = some name →
    held destination ((converter.convert folder destination).left session) name =
      held destination ((converter.convert folder destination).left begun) name
  others : ∀ name, converter.targetName? begun folder ≠ some name →
    held destination ((converter.convert folder destination).left session) name =
      held destination session name

theorem independent_of_error {failure : Failure} {alone : Session}
    (ground : Ground converter destination begun)
    (onward : Onward converter destination begun session)
    (fresh : ∀ name, converter.targetName? begun folder = some name →
      held destination session name = none)
    (run : (converter.convert folder destination).run session = .error failure after)
    (runAlone : (converter.convert folder destination).run begun = .error failure alone)
    (sameDisk : SameDisk session after) (sameFeed : SameFeed converter.context session after)
    (sameDiskAlone : SameDisk begun alone) :
    Independent converter destination begun folder session := by
  refine ⟨(outcome_of_error run).trans (outcome_of_error runAlone).symm, ?_, ?_, ?_⟩
  · rw [left_of_error run]
    exact onward.of_sameDisk sameDisk sameFeed
  · intro name known
    rw [left_of_error run, left_of_error runAlone, held, held, sameDisk, sameDiskAlone]
    exact (fresh name known).trans (ground.held name).symm
  · intro name _
    rw [left_of_error run, held, held, sameDisk]

theorem held_masked {shown : String → Bool} (place : session.disk.place destination = base)
    (masked : session.disk.masked shown base = after.disk) (seen : shown name = true) :
    held destination after name = held destination session name := by
  subst place
  rw [held, ← masked]
  exact Tree.at?_mask seen []

theorem Onward.stage (onward : Onward converter destination begun session)
    (ground : Ground converter destination begun) : session.disk.Stage destination := by
  have stage := ground.stage
  rw [← onward.beside.emptied] at stage
  exact stage.of_masked (onward.place destination)

/-- Where nothing has the name of a recipe's folder yet, a session can be told from the one that the
batch begins with only by the other recipes' folders. -/
theorem twins_of_absent (onward : Onward converter destination begun session)
    (absent : held destination session name = none) (sameDisk : SameDisk begun second) :
    Twins session destination name session second := by
  have different (other : String)
      (there : session.disk.root.at? (session.disk.place destination ++ [other]) ≠ none) :
      other ≠ name := by
    rintro rfl
    exact there absent
  refine ⟨onward.sound, ?_, Disk.masked_of_all fun other there => ?_, rfl⟩
  · have emptied := onward.beside.emptied
    rw [← onward.place] at emptied
    rw [sameDisk, ← emptied]
    refine Disk.masked_congr fun other there => ?_
    simp [Disk.nothing, different other there]
  · simp [different other there]

theorem Onward.of_twins (onward : Onward converter destination begun session)
    (ground : Ground converter destination begun)
    (twins : Twins session destination name first second) :
    Onward converter destination begun first := by
  have emptied : Emptied (begun.disk.place destination) first begun := by
    have others := twins.others
    rw [onward.place] at others
    rw [Emptied, ← Disk.masked_nothing, others]
    exact onward.beside.emptied
  have read := (readFeed_emptied emptied ground.feed).trans
    (readFeed_emptied onward.beside.emptied ground.feed).symm
  exact ⟨twins.sound, emptied, trans_of (SameFeed converter.context) onward.beside.feed
    (sameFeed_of_readFeed twins.published read)⟩

theorem held_own (twins : Twins session destination name first second) :
    held destination second name = held destination first name :=
  held_masked (twins.place destination) twins.own.symm (by simp)

theorem held_other (twins : Twins session destination name first second) {other : String}
    (different : other ≠ name) : held destination session other = held destination first other :=
  held_masked (twins.place destination) twins.others (by simpa using different)

theorem carryOut_alone {descriptor : Descriptor} {alone : Session}
    (ground : Ground converter destination begun)
    (onward : Onward converter destination begun session)
    (aside : begun.disk.Aside (begun.disk.place destination) folder)
    (proper : ProperName (converter.mode.destinationName descriptor))
    (absent : held destination session (converter.mode.destinationName descriptor) = none)
    (sameDisk : SameDisk begun alone) :
    AlikeIn (Twins session destination (converter.mode.destinationName descriptor))
      (converter.carryOut folder
        (destination.joinName (converter.mode.destinationName descriptor)) descriptor)
      session alone := by
  have here := onward.beside.emptied.here
  have place := onward.place destination
  exact carryOut_twins proper (onward.stage ground) (place ▸ ground.resources.congr here)
    (Path.within_joinName proper) (place ▸ aside.congr here) descriptor session alone
    (twins_of_absent onward absent sameDisk)

theorem independent_of_load {descriptor : Descriptor} {loaded alone : Session}
    (ground : Ground converter destination begun)
    (onward : Onward converter destination begun session)
    (aside : begun.disk.Aside (begun.disk.place destination) folder)
    (fresh : ∀ name, converter.targetName? begun folder = some name →
      ProperName name ∧ held destination session name = none)
    (isFolder : begun.disk.isFolder folder = true)
    (load : (Descriptor.load folder converter.context).run session = .ok descriptor loaded)
    (loadAlone : (Descriptor.load folder converter.context).run begun = .ok descriptor alone) :
    Independent converter destination begun folder session := by
  have known : converter.targetName? begun folder =
      some (converter.mode.destinationName descriptor) := by
    rw [targetName?, value?, loadAlone]
    rfl
  obtain ⟨proper, absent⟩ := fresh _ known
  have sameDisk : SameDisk session loaded := (Descriptor.load_sameDisk _ _).ok load
  have sameFeed : SameFeed converter.context session loaded := (Descriptor.load_sameFeed _ _).ok load
  have still (name : String) : held destination loaded name = held destination session name := by
    rw [held, held, sameDisk]
  have further := onward.of_sameDisk sameDisk sameFeed
  -- Both runs load the same descriptor, and are carried out from there.
  have run := convert_of_load destination
    ((onward.beside.emptied.isFolder aside.sees).trans isFolder) load
  have runAlone := convert_of_load destination isFolder loadAlone
  have alike := carryOut_alone ground further aside proper ((still _).trans absent)
    ((Descriptor.load_sameDisk _ _).ok loadAlone)
  obtain ⟨outcomes, twins⟩ := alike
  rw [outcome, outcome, ← run, ← runAlone] at outcomes
  unfold EStateM.left at twins
  rw [← run, ← runAlone] at twins
  refine ⟨outcomes, further.of_twins ground twins, ?_, ?_⟩
  · intro name named
    obtain rfl : converter.mode.destinationName descriptor = name := by
      rw [known] at named
      exact Option.some.inj named
    exact (held_own twins).symm
  · intro name other
    rw [← still]
    refine (held_other twins ?_).symm
    rintro rfl
    exact other known

/-- What is done for one recipe depends on no other one, and touches no other one's folder. -/
theorem convert_independent (ground : Ground converter destination begun)
    (onward : Onward converter destination begun session)
    (aside : begun.disk.Aside (begun.disk.place destination) folder)
    (fresh : ∀ name, converter.targetName? begun folder = some name →
      ProperName name ∧ held destination session name = none) :
    Independent converter destination begun folder session := by
  have absent (name : String) (known : converter.targetName? begun folder = some name) :=
    (fresh name known).2
  have same := onward.beside.emptied.isFolder aside.sees
  cases there : begun.disk.isFolder folder with
  | false =>
      rw [there] at same
      exact independent_of_error ground onward absent (convert_of_notFolder destination same)
        (convert_of_notFolder destination there) rfl (refl_of (SameFeed converter.context) session) rfl
  | true =>
      have loading := (load_beside (aside.joinName Descriptor.fileName_proper).sees
        onward.beside).outcome
      cases loadAlone : (Descriptor.load folder converter.context).run begun with
      | ok descriptor alone =>
          rw [outcome_of_ok loadAlone] at loading
          exact independent_of_load ground onward aside fresh there (run_of_outcome_ok loading) loadAlone
      | error failure alone =>
          rw [outcome_of_error loadAlone] at loading
          have run := convert_of_unloaded destination (same.trans there) (run_of_outcome_error loading)
          have runAlone := convert_of_unloaded destination there loadAlone
          have sameDiskAlone := Descriptor.load_sameDisk folder converter.context begun
          rw [left_of_error loadAlone] at sameDiskAlone
          exact independent_of_error ground onward absent run runAlone
            (Descriptor.load_sameDisk folder converter.context session)
            (Descriptor.load_sameFeed folder converter.context session) sameDiskAlone

/-! ## Batches -/

def noteAlone (converter : Converter) (destination : Path) (begun : Session) (batch : Batch)
    (folder : Path) : Batch :=
  batch.note folder.name ((converter.convert folder destination).outcome begun)

theorem convertEach_independent (ground : Ground converter destination begun)
    (onward : Onward converter destination begun session) (batch : Batch)
    (aside : ∀ folder ∈ folders, begun.disk.Aside (begun.disk.place destination) folder)
    (fresh : ∀ folder ∈ folders, ∀ name, converter.targetName? begun folder = some name →
      ProperName name ∧ held destination session name = none)
    (distinct : folders.Pairwise fun first second => ∀ name,
      converter.targetName? begun first = some name → ∀ other,
        converter.targetName? begun second = some other → name ≠ other) :
    let ended := (converter.convertEach destination batch folders).left session
    (converter.visits destination folders session).foldl (converter.note destination) batch =
        folders.foldl (converter.noteAlone destination begun) batch ∧
      Onward converter destination begun ended ∧
      (∀ folder ∈ folders, ∀ name, converter.targetName? begun folder = some name →
        held destination ended name =
          held destination ((converter.convert folder destination).left begun) name) ∧
      ∀ name, (∀ folder ∈ folders, converter.targetName? begun folder ≠ some name) →
        held destination ended name = held destination session name := by
  induction folders generalizing session batch with
  | nil => exact ⟨rfl, onward, by simp, fun _ _ => rfl⟩
  | cons folder folders ih =>
      obtain ⟨asideHere, asideRest⟩ := List.forall_mem_cons.mp aside
      obtain ⟨freshHere, freshRest⟩ := List.forall_mem_cons.mp fresh
      obtain ⟨different, distinctRest⟩ := List.pairwise_cons.mp distinct
      have one := convert_independent ground onward asideHere freshHere
      -- The first conversion writes under its own name only, which none of the others has.
      have stillFresh : ∀ other ∈ folders, ∀ name, converter.targetName? begun other = some name →
          ProperName name ∧
            held destination ((converter.convert folder destination).left session) name = none := by
        intro other member name known
        obtain ⟨proper, absent⟩ := freshRest other member name known
        refine ⟨proper, ?_⟩
        rw [one.others name, absent]
        exact fun same => different other member name same name known rfl
      obtain ⟨report, ended, own, others⟩ := ih one.onward
        (batch.note folder.name ((converter.convert folder destination).outcome session))
        asideRest stillFresh distinctRest
      rw [visits, List.foldl_cons, List.foldl_cons, convertEach_left]
      refine ⟨?_, ended, ?_, ?_⟩
      · rw [noteAlone, ← one.outcome]
        exact report
      · rw [List.forall_mem_cons]
        refine ⟨?_, own⟩
        intro name known
        rw [← one.own name known]
        apply others
        exact fun other member same => different other member name known name same rfl
      · intro name elsewhere
        rw [List.forall_mem_cons] at elsewhere
        rw [← one.others name elsewhere.1]
        exact others name elsewhere.2

theorem aside_joinNames {d : Disk} {root : Path} (aside : d.Aside base root) {names : List String}
    (proper : ∀ name ∈ names, ProperName name) : d.Aside base (root.joinNames names) := by
  induction names generalizing root with
  | nil => exact aside
  | cons name names ih =>
      rw [List.forall_mem_cons] at proper
      exact ih (aside.joinName proper.1) proper.2

theorem isFolder_of_findRecipes {d : Disk} (found : findRecipes d source = .ok recipes) :
    d.isFolder source = true := by
  unfold findRecipes at found
  split at found
  · next tree entry => exact Disk.isFolder_iff_entry.mpr ⟨tree, entry⟩
  · cases found

theorem recipes_aside (ground : Ground converter destination begun) (sound : begun.disk.Sound)
    (found : findRecipes begun.disk source = .ok recipes)
    (apart : Apart (begun.disk.place source) (begun.disk.place destination)) :
    ∀ folder ∈ recipes, begun.disk.Aside (begun.disk.place destination) folder := by
  have leads := (Disk.isFolder_iff.mp (isFolder_of_findRecipes found)).2
  have aside : begun.disk.Aside (begun.disk.place destination) source :=
    ⟨sees_of_leads leads ground.empty, apart⟩
  intro folder member
  obtain ⟨names, -, proper, rfl, -⟩ := mem_findRecipes sound found member
  exact aside_joinNames aside proper

theorem held_writeFile {leaf : String} {data : FileData} {made : Disk}
    (leads : session.disk.Leads destination)
    (written : made = { session.disk with
      root := session.disk.root.change (·.set leaf (.file data)) (session.disk.place destination) }) :
    held destination { session with disk := made } leaf = some (.file data) ∧
      ∀ name, name ≠ leaf → held destination { session with disk := made } name =
        held destination session name := by
  obtain ⟨content, there⟩ := leads.folder
  subst written
  have now (name : String) : held destination { session with disk := { session.disk with
      root := session.disk.root.change (·.set leaf (.file data)) (session.disk.place destination) } }
      name = (content.set leaf (.file data)).get? name := by
    show Tree.at? _ (session.disk.place destination ++ [name]) = _
    rw [Tree.at?_append (Tree.at?_change there _), Tree.at?_singleton]
  constructor
  · rw [now, Tree.get?_set_self]
  · intro name different
    rw [now, Tree.get?_set_of_ne different, held, Tree.at?_append there, Tree.at?_singleton]

theorem convertAll_run {ended : Session} (folder : session.disk.isFolder source = true)
    (creating : (createFolders destination).run session = .ok () begun)
    (found : findRecipes begun.disk source = .ok recipes)
    (converted : (converter.convertEach destination {} recipes).run begun = .ok batch ended)
    (writing : (writeText (Batch.indexPath destination)
      (Index.render batch.index (converter.mode.target?.map (·.release)))).run ended = .ok () after) :
    (converter.convertAll source destination).run session = .ok batch after := by
  have looked : (isFolder source).run session = .ok true session := isFolder_eq_ok.mpr ⟨folder, rfl⟩
  have got : (get : Action Session).run begun = .ok begun begun := rfl
  have finding : (ofExcept (findRecipes begun.disk source)).run begun = .ok recipes begun :=
    ofExcept_eq_ok.mpr ⟨found, rfl⟩
  unfold convertAll
  rw [run_bind_of_ok looked]
  simp only [Bool.not_true, Bool.false_eq_true, if_false]
  rw [run_bind_of_ok creating, run_bind_of_ok got, run_bind_of_ok finding, run_bind_of_ok converted,
    run_bind_of_ok writing]
  rfl

/-- In an empty destination, recipes with folders of their own do not meet: the batch reports of each
what becomes of it alone, and the destination comes to hold what each leaves alone, the index and
nothing else. -/
theorem batch_independent (sound : session.disk.Sound)
    (folder : session.disk.isFolder source = true)
    (creating : (createFolders destination).run session = .ok () begun)
    (ground : Ground converter destination begun)
    (accepted : begun.disk.refuse? (Batch.indexPath destination) = none)
    (found : findRecipes begun.disk source = .ok recipes)
    (apart : Apart (begun.disk.place source) (begun.disk.place destination))
    (named : ∀ name ∈ recipes.filterMap (converter.targetName? begun),
      ProperName name ∧ name ≠ Index.fileName)
    (distinct : (recipes.filterMap (converter.targetName? begun)).Nodup) :
    ∃ batch after, (converter.convertAll source destination).run session = .ok batch after ∧
      batch = recipes.foldl (converter.noteAlone destination begun) {} ∧
      (∀ folder ∈ recipes, ∀ name, converter.targetName? begun folder = some name →
        held destination after name =
          held destination ((converter.convert folder destination).left begun) name) ∧
      held destination after Index.fileName = some (.file {
        bytes := (Index.render batch.index (converter.mode.target?.map (·.release))).toUTF8
        executable := false }) ∧
      ∀ name, held destination after name ≠ none →
        name = Index.fileName ∨ name ∈ recipes.filterMap (converter.targetName? begun) := by
  have begunSound : begun.disk.Sound := (Copy.createFolders_becomes sound creating).sound sound
  have start : Onward converter destination begun begun :=
    ⟨begunSound, ground.masked Disk.nothing, refl_of (SameFeed converter.context) begun⟩
  have known {folder : Path} {name : String} (member : folder ∈ recipes)
      (same : converter.targetName? begun folder = some name) :
      name ∈ recipes.filterMap (converter.targetName? begun) :=
    List.mem_filterMap.mpr ⟨folder, member, same⟩
  obtain ⟨report, onward, own, others⟩ := convertEach_independent ground start {}
    (recipes_aside ground begunSound found apart)
    (fun folder member name same => ⟨(named name (known member same)).1, ground.held name⟩)
    (List.pairwise_filterMap.mp distinct)
  have converted : (converter.convertEach destination {} recipes).run begun = _ :=
    convertEach_run {} recipes begun
  rw [report] at converted
  generalize (converter.convertEach destination {} recipes).left begun = ended at *
  generalize recipes.foldl (converter.noteAlone destination begun) {} = batch at *
  -- The index gets a name that no recipe has.
  have free : held destination ended Index.fileName = none := by
    rw [others, ground.held]
    exact fun folder member same => (named _ (known member same)).2 rfl
  have leads := (onward.stage ground).leads
  have same : ended.disk.refuse? (Batch.indexPath destination) = none := by
    rw [← accepted, ← onward.beside.emptied]
    rfl
  have written := Disk.writeFile_new leads Index.fileName_proper same (by decide) free
    (Index.render batch.index (converter.mode.target?.map (·.release))).toUTF8
  obtain ⟨index, kept⟩ := held_writeFile leads rfl
  refine ⟨batch, _, ?_, rfl, ?_, index, ?_⟩
  · exact convertAll_run folder creating found converted (change_eq_ok.mpr ⟨_, written, rfl⟩)
  · intro folder member name same
    rw [kept name (named name (known member same)).2]
    exact own folder member name same
  · intro name there
    by_cases isIndex : name = Index.fileName
    · exact .inl isIndex
    · right
      rw [kept name isIndex] at there
      by_contra unknown
      apply there
      rw [others, ground.held]
      exact fun folder member same => unknown (known member same)

/-- A recipe with a malformed descriptor next to one that is in order, and an empty destination. -/
def malformedNeighbour : Session where
  disk := {
    root := .folder "recipes"
      (.folder "bad" (.file "recipe_metadata.toml" ⟨"[agpVersion".toUTF8, false⟩ .empty)
        (.folder "good"
          (.file "recipe_metadata.toml" ⟨"[agpVersion]\nmin = \"8.1.0\"\n".toUTF8, false⟩ .empty)
          .empty))
      (.folder "out" .empty .empty)
    here := [] }

theorem malformedNeighbour_ground : sparing.Ground ⟨"out"⟩ malformedNeighbour where
  leads := (Disk.isFolder_iff.mp (by decide +kernel)).2
  empty := by decide +kernel
  resources := ⟨Disk.sees_of_noStepUp (by decide +kernel) (by decide +kernel), by decide +kernel⟩
  feed := Disk.sees_of_noStepUp (by decide +kernel) (by decide +kernel)

theorem batch_independent_malformedNeighbour :
    ∃ batch after,
      (sparing.convertAll ⟨"recipes"⟩ ⟨"out"⟩).run malformedNeighbour = .ok batch after ∧
      batch.converted = ["good"] ∧ held ⟨"out"⟩ after "good" =
        held ⟨"out"⟩ ((sparing.convert ⟨"recipes/good"⟩ ⟨"out"⟩).left malformedNeighbour) "good" ∧
      held ⟨"out"⟩ after "bad" = none := by
  have names : [(⟨"recipes/bad"⟩ : Path), ⟨"recipes/good"⟩].filterMap
      (sparing.targetName? malformedNeighbour) = ["good"] := by decide +kernel
  have good : sparing.targetName? malformedNeighbour ⟨"recipes/good"⟩ = some "good" := by
    decide +kernel
  have sound : malformedNeighbour.disk.Sound := ⟨by decide +kernel, by simp [malformedNeighbour]⟩
  have folder : malformedNeighbour.disk.isFolder ⟨"recipes"⟩ = true := by decide +kernel
  have creating : (createFolders ⟨"out"⟩).run malformedNeighbour = .ok () malformedNeighbour :=
    createFolders_eq_ok.mpr ⟨_, Disk.createFolders_there (by decide +kernel), rfl⟩
  have found : findRecipes malformedNeighbour.disk ⟨"recipes"⟩ =
      .ok [⟨"recipes/bad"⟩, ⟨"recipes/good"⟩] := except_toOption_eq_some.mp (by decide +kernel)
  obtain ⟨batch, after, run, report, own, -, only⟩ := batch_independent sound folder creating
    malformedNeighbour_ground (by decide +kernel) found (by decide +kernel)
    (by rw [names]; decide +kernel) (by rw [names]; simp)
  refine ⟨batch, after, run, ?_, own _ (by simp) _ good, ?_⟩
  · rw [report]
    decide +kernel
  · by_contra there
    have named := only "bad" there
    rw [names] at named
    revert named
    decide +kernel

/-- A recipe that ships a feed of releases, and one that needs a feed. -/
def shippedFeed : Session where
  disk := {
    root := .folder "recipes"
      (.folder "a"
        (.file "recipe_metadata.toml" ⟨"[agpVersion]\nmin = \"8.1.0\"\n".toUTF8, false⟩
          (.file "maven-metadata.xml" ⟨"<version>8.2.2</version>".toUTF8, false⟩ .empty))
        (.folder "b"
          (.file "recipe_metadata.toml" ⟨"[agpVersion]\nmin = \"8.2\"\n".toUTF8, false⟩ .empty)
          .empty))
      (.folder "out" .empty .empty)
    here := [] }

/-- A converter that looks for the feed where the first recipe puts its own. -/
def findingFeed : Converter where
  mode := .source
  context := ⟨{ feed := ⟨"out/a/maven-metadata.xml"⟩ }, ⟨[(⟨8, 2⟩, ⟨"8.2", "1.9.0"⟩)], by simp⟩⟩

theorem batch_independent_fails :
    ¬ ∀ (converter : Converter) (source destination : Path) (session begun : Session)
      (recipes : List Path), session.disk.Sound → session.disk.isFolder source = true →
      (createFolders destination).run session = .ok () begun →
      begun.disk.Leads destination →
      begun.disk.root.at? (begun.disk.place destination) = some (.folder .empty) →
      begun.disk.refuse? (Batch.indexPath destination) = none →
      findRecipes begun.disk source = .ok recipes →
      Apart (begun.disk.place source) (begun.disk.place destination) →
      Apart (begun.disk.place converter.context.config.gradleResourcesPath)
        (begun.disk.place destination) →
      (∀ name ∈ recipes.filterMap (converter.targetName? begun),
        ProperName name ∧ name ≠ Index.fileName) →
      (recipes.filterMap (converter.targetName? begun)).Nodup →
      ∃ batch after, (converter.convertAll source destination).run session = .ok batch after ∧
        batch = recipes.foldl (converter.noteAlone destination begun) {} := by
  intro independent
  have names : [(⟨"recipes/a"⟩ : Path), ⟨"recipes/b"⟩].filterMap
      (findingFeed.targetName? shippedFeed) = ["a"] := by decide +kernel
  obtain ⟨batch, after, run, report⟩ := independent findingFeed ⟨"recipes"⟩ ⟨"out"⟩ shippedFeed
    shippedFeed [⟨"recipes/a"⟩, ⟨"recipes/b"⟩] ⟨by decide +kernel, by simp [shippedFeed]⟩
    (by decide +kernel)
    (createFolders_eq_ok.mpr ⟨_, Disk.createFolders_there (by decide +kernel), rfl⟩)
    (Disk.isFolder_iff.mp (by decide +kernel)).2 (by decide +kernel) (by decide +kernel)
    (except_toOption_eq_some.mp (by decide +kernel)) (by decide +kernel) (by decide +kernel)
    (by rw [names]; decide +kernel) (by rw [names]; simp)
  -- After the first recipe the feed is there, so that the second one can be loaded.
  have together : ((findingFeed.convertAll ⟨"recipes"⟩ ⟨"out"⟩).value? shippedFeed).map
      (·.hasFailures) = some false := by decide +kernel
  have alone : ([(⟨"recipes/a"⟩ : Path), ⟨"recipes/b"⟩].foldl
      (findingFeed.noteAlone ⟨"out"⟩ shippedFeed) {}).hasFailures = true := by decide +kernel
  rw [value?, run, Option.map_some, report, alone] at together
  cases together

end Converter

end Cookbook
