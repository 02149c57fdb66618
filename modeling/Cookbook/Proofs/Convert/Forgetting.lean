import Cookbook.Proofs.Convert.Reconverting
import Cookbook.Proofs.Recipe.Reloading

/-!
Overwriting forgets. What a folder showed before it was overwritten has no bearing on what it comes to
hold: that is told by the recipe, the wrapper and the folder's hidden entries, and converting again
changes nothing more.
-/

namespace Cookbook

open Action

variable {source destination folder : Path} {plan : Plan}

/-! ## Images -/

namespace Plan

theorem fate_idem (rest : Location) (data old : Option FileData) :
    plan.fate rest data (plan.fate rest data old) = plan.fate rest data old := by
  cases data with
  | none => rfl
  | some data =>
      rw [fate, fate]
      split
      · rfl
      · rfl
      · rfl

theorem fate_of_none {rest : Location} {data : Option FileData}
    (unwritten : plan.fate rest data none = none) (old : Option FileData) :
    plan.fate rest data old = old := by
  cases data with
  | none => rfl
  | some data =>
      rw [fate] at unwritten ⊢
      split at unwritten
      · rfl
      · cases unwritten
      · cases unwritten

end Plan

namespace Converter

variable {converter : Converter} {d made : Disk}

/-- That a disk has the same files and folders of a recipe and of the wrapper as another one. -/
structure SameInputs (converter : Converter) (source : Path) (d made : Disk) : Prop where
  place : ∀ p, made.place p = d.place p
  recipe : d.SameIn made (d.place source)
  wrapper : d.SameIn made (d.place converter.context.config.gradleResourcesPath)

theorem SameInputs.imageFile (same : converter.SameInputs source d made) (plan : Plan) (rest : Location)
    (old : Option FileData) :
    converter.imageFile plan made source rest old = converter.imageFile plan d source rest old := by
  rw [Converter.imageFile, Converter.imageFile, same.place, same.place, (same.recipe rest).1,
    (same.wrapper rest).1]

theorem SameInputs.imageFolder (same : converter.SameInputs source d made) (rest : Location) :
    converter.imageFolder made source rest ↔ converter.imageFolder d source rest := by
  rw [Converter.imageFolder, Converter.imageFolder, same.place, same.place, (same.recipe rest).2,
    (same.wrapper rest).2]

theorem imageFile_idem (rest : Location) (old : Option FileData) :
    converter.imageFile plan d source rest (converter.imageFile plan d source rest old) =
      converter.imageFile plan d source rest old := by
  unfold imageFile
  split
  · cases d.files (d.place converter.context.config.gradleResourcesPath ++ rest) with
    | none => exact Plan.fate_idem rest _ old
    | some data => rfl
  · exact Plan.fate_idem rest _ old

theorem imageFile_of_none {rest : Location}
    (unwritten : converter.imageFile plan d source rest none = none) (old : Option FileData) :
    converter.imageFile plan d source rest old = old := by
  unfold imageFile at unwritten ⊢
  split at unwritten
  · obtain ⟨resource, recipe⟩ := Option.or_eq_none_iff.mp unwritten
    simp only [resource, Option.none_or, ite_self]
    exact Plan.fate_of_none recipe old
  · next unwrapped =>
      rw [if_neg unwrapped]
      exact Plan.fate_of_none unwritten old

theorem no_image {name : String}
    (recipe : d.root.at? (d.place source ++ [name]) = none)
    (wrapper : d.root.at? (d.place converter.context.config.gradleResourcesPath ++ [name]) = none)
    (rest : Location) :
    converter.imageFile plan d source (name :: rest) none = none ∧
      ¬ converter.imageFolder d source (name :: rest) := by
  have absent {above : Location} (nothing : d.root.at? (above ++ [name]) = none) :
      d.files (above ++ name :: rest) = none ∧ ¬ d.root.HasFolder (above ++ name :: rest) := by
    rw [List.append_cons]
    refine ⟨Tree.fileAt?_absent nothing rest, fun there => ?_⟩
    obtain ⟨content, found⟩ := there.of_append
    rw [nothing] at found
    cases found
  rw [imageFile, imageFolder, (absent recipe).1, (absent wrapper).1]
  refine ⟨by simp [Plan.fate], ?_⟩
  rintro (⟨-, there⟩ | ⟨-, there⟩)
  · exact (absent recipe).2 there
  · exact (absent wrapper).2 there

theorem imageFile_spared_idem (rest : Location) (old : Option FileData) :
    converter.imageFile plan d source rest
        (if spares rest then converter.imageFile plan d source rest (if spares rest then old else none)
          else none) =
      converter.imageFile plan d source rest (if spares rest then old else none) := by
  cases spares rest with
  | true => exact imageFile_idem rest old
  | false => rfl

end Converter

/-! ## Other contents -/

/-- That two disks are alike but for what a folder shows, and for the folders that lead to it. -/
structure Disk.AlikeBut (folder : Path) (d made : Disk) : Prop where
  same : made = { d with root := made.root }
  files : ∀ place, ¬ d.ShownIn folder place → made.files place = d.files place
  folders : ∀ place, ¬ d.ShownIn folder place → ¬ place <+: d.place folder →
    (made.root.HasFolder place ↔ d.root.HasFolder place)

namespace Disk.AlikeBut

variable {d made : Disk} {p : Path} (alike : d.AlikeBut folder made)
include alike

theorem place (p : Path) : made.place p = d.place p := by
  rw [alike.same]
  rfl

theorem text_eq (unshown : ¬ d.ShownIn folder (d.place p)) {text text' : String}
    (read : d.readText p = .ok text) (read' : made.readText p = .ok text') : text' = text := by
  obtain ⟨data, found, decoded⟩ := readText_eq_ok read
  obtain ⟨data', found', decoded'⟩ := readText_eq_ok read'
  rw [alike.place, alike.files _ unshown, found] at found'
  cases found'
  rw [decoded] at decoded'
  exact (Option.some.inj decoded').symm

theorem still (apart : Apart (d.place p) (d.place folder)) : d.SameIn made (d.place p) := by
  intro rest
  have unshown := not_shownIn_of_apart apart rest
  exact ⟨alike.files _ unshown, alike.folders _ unshown fun above =>
    apart.above ((List.prefix_append _ _).trans above)⟩

theorem spared {rest : Location} (spared : spares rest = true) :
    made.files (d.place folder ++ rest) = d.files (d.place folder ++ rest) ∧
      (rest ≠ [] → (made.root.HasFolder (d.place folder ++ rest) ↔
        d.root.HasFolder (d.place folder ++ rest))) := by
  have unshown : ¬ d.ShownIn folder (d.place folder ++ rest) := by
    rw [shownIn_append, spared]
    exact Bool.noConfusion
  refine ⟨alike.files _ unshown, fun some_ => alike.folders _ unshown fun above => ?_⟩
  have short := above.length_le
  rw [List.length_append] at short
  exact some_ (List.length_eq_zero_iff.mp (by omega))

end Disk.AlikeBut

theorem Disk.Cleared.alikeBut {d made c : Disk} {path : Path} (cleared : d.Cleared path c)
    (cleared' : made.Cleared path c) (there : d.place path = d.place folder) :
    d.AlikeBut folder made := by
  have same : made = { d with root := made.root } := by
    have back : made = { c with root := made.root } := by rw [cleared'.becomes.same]
    rw [back, cleared.becomes.same]
  have there' : made.place path = d.place folder := by
    rw [← there, same]
    rfl
  have unshown {place : Location} (spared : ¬ d.ShownIn folder place) :
      ¬ d.ShownIn path place ∧ ¬ made.ShownIn path place := by
    rw [ShownIn, ShownIn, there, there']
    exact ⟨spared, spared⟩
  refine ⟨same, fun place spared => ?_, fun place spared _ => ?_⟩
  · rw [← cleared'.files place (unshown spared).2, cleared.files place (unshown spared).1]
  · rw [← and_iff_left (a := made.root.HasFolder place) (unshown spared).2, ← cleared'.folders,
      cleared.folders, and_iff_left (unshown spared).1]

theorem alikeBut_of_clearing {session other : Session} (folder path : Path)
    (sound : session.disk.Sound) (otherSound : other.disk.Sound)
    (clears : (clearFolder path).value? session = some ())
    (otherClears : (clearFolder path).value? other = some ())
    (same : ((clearFolder path).left other).disk = ((clearFolder path).left session).disk)
    (there : session.disk.place path = session.disk.place folder) :
    session.disk.AlikeBut folder other.disk := by
  have cleared := clearFolder_cleared otherSound (run_eq_ok otherClears)
  rw [same] at cleared
  exact (clearFolder_cleared sound (run_eq_ok clears)).alikeBut cleared there

/-! ## Converting again -/

theorem Conversion.eq_of_fields {first second : Conversion}
    (descriptor : second.descriptor = first.descriptor)
    (destination : second.destination = first.destination)
    (outcome : second.outcome = first.outcome) : second = first := by
  obtain ⟨_, _, _⟩ := first
  obtain ⟨_, _, _⟩ := second
  cases descriptor
  cases destination
  cases outcome
  rfl

namespace Converter

variable {converter : Converter} {session after : Session} {conversion : Conversion}
  {begun cleared copied cleared' copied' ended : Session}

namespace ConvertsOver

theorem sameInputs (converts : converter.ConvertsOver plan source folder begun cleared copied after) :
    converter.SameInputs source begun.disk after.disk :=
  ⟨converts.place, converts.overlays.still converts.apart,
    converts.overlays.still converts.resourcesApart⟩

/-- A conversion that is carried out again changes neither files nor folders. -/
theorem same_again (converts : converter.ConvertsOver plan source folder begun cleared copied after)
    (again : converter.ConvertsOver plan source folder after cleared' copied' ended) :
    after.disk.SameIn ended.disk [] := by
  intro place
  rw [List.nil_append]
  have same := converts.sameInputs
  have overlays := again.overlays
  by_cases below : after.disk.place folder <+: place
  · obtain ⟨rest, rfl⟩ := below
    rw [overlays.files, overlays.folders, same.imageFile, same.imageFolder, converts.place,
      converts.overlays.files, converts.overlays.folders]
    exact ⟨imageFile_spared_idem rest _, by tauto⟩
  · refine ⟨overlays.otherFiles place below, (overlays.otherFolders place below).trans ?_⟩
    refine or_iff_left_of_imp ?_
    rintro ⟨rest, above⟩
    have there := converts.ends_leads.folder
    rw [← above] at there
    exact there.of_append

end ConvertsOver

/-- Right after a conversion that has overwritten the recipe's folder, the same conversion succeeds and
leaves all files and folders as they are. -/
theorem RunsOver.convert_again
    (runs : converter.RunsOver source destination session conversion after)
    (replaceable : session.disk.Replaceable conversion.destination) :
    ∃ ended, (converter.convert source destination).run after = .ok conversion ended ∧
      after.disk.SameIn ended.disk [] := by
  obtain ⟨loaded, plan, cleared, copied, load, sameDisk, named, accepted, planned, converts⟩ :=
    runs.convertsOver replaceable
  have carried : OnDisk loaded after := by
    have run := runs.run
    rw [convert_of_load destination (convert_isFolder run) load] at run
    exact (carryOut_onDisk _ _ _).ok run
  obtain ⟨cleared', copied', ended, clearing, again⟩ := converts.converts_again runs.overwrite
  refine ⟨ended, ?_, converts.same_again again⟩
  rw [convert_of_load destination converts.source_leads.2 (converts.load_again load carried.published),
    ← named, carryOut_ok clearing accepted planned again.copying again.wrapping,
    ← runs.converted]

/-! ## Overwriting other contents -/

variable {other : Session} {conversion' : Conversion}

/-- The recipe is loaded alike, as its own file is apart from the folder and the feed is not shown in
it. -/
theorem descriptor_eq_of_alikeBut (alike : session.disk.AlikeBut folder other.disk)
    (published : other.published = session.published)
    (apart : Apart (session.disk.place source) (session.disk.place folder))
    (feed : ¬ session.disk.ShownIn folder (session.disk.place converter.context.config.feed))
    {descriptor descriptor' : Descriptor}
    (load : (Descriptor.load source converter.context).run session = .ok descriptor begun)
    (load' : (Descriptor.load source converter.context).run other = .ok descriptor' ended) :
    descriptor' = descriptor := by
  have agrees : converter.context.AgreesOnFeed session other :=
    ⟨published, fun _ _ => alike.text_eq feed⟩
  refine agrees.descriptor_eq (fun _ _ => alike.text_eq ?_) load load'
  rw [Disk.place_joinName _ _ Descriptor.fileName_proper]
  exact Disk.not_shownIn_of_apart apart _

theorem ConvertsOver.same_below (alike : begun.disk.AlikeBut folder other.disk)
    (converts : converter.ConvertsOver plan source folder begun cleared copied after)
    (again : converter.ConvertsOver plan source folder other cleared' copied' ended) :
    after.disk.SameIn ended.disk (begun.disk.place folder) := by
  intro rest
  have same : converter.SameInputs source begun.disk other.disk :=
    ⟨alike.place, alike.still converts.apart, alike.still converts.resourcesApart⟩
  have overlays := again.overlays
  have files := overlays.files rest
  have folders := overlays.folders rest
  rw [alike.place] at files folders
  rw [files, folders, converts.overlays.files, converts.overlays.folders, same.imageFile,
    same.imageFolder]
  cases spared : spares rest with
  | false => simp
  | true =>
      obtain ⟨file, folder⟩ := alike.spared spared
      refine ⟨by rw [file], ?_⟩
      by_cases top : rest = []
      · have made : converter.imageFolder begun.disk source rest :=
          .inl ⟨by simp [top], by simpa [top] using converts.sourceThere⟩
        simp [made]
      · rw [folder top]

/-- Overwriting leaves nothing of what the recipe's folder showed before. If the feed is not shown there
and the folder can be replaced, then conversions that differ in nothing else have the same result; what
is not in hidden entries is that of the image, and what is in a hidden entry that has no place in the
image is left alone; and the same conversion right after changes neither files nor folders. -/
theorem overwriting_forgets
    (runs : converter.RunsOver source destination session conversion after)
    (replaceable : session.disk.Replaceable conversion.destination)
    (feed : ¬ session.disk.ShownIn conversion.destination
      (session.disk.place converter.context.config.feed)) :
    let folder := session.disk.place conversion.destination
    (∀ other ended conversion', session.disk.AlikeBut conversion.destination other.disk →
      other.published = session.published →
      converter.RunsOver source destination other conversion' ended →
      other.disk.Replaceable conversion.destination →
      conversion' = conversion ∧ after.disk.SameIn ended.disk folder) ∧
    (∃ plan, converter.mode.plan conversion.descriptor converter.context = .ok plan ∧
      (∀ rest, spares rest = false →
        after.disk.files (folder ++ rest) =
          converter.imageFile plan session.disk source rest none ∧
        (after.disk.root.HasFolder (folder ++ rest) ↔
          converter.imageFolder session.disk source rest)) ∧
      ∀ name, isHidden name = true →
        (∀ rest, converter.imageFile plan session.disk source (name :: rest) none = none ∧
          ¬ converter.imageFolder session.disk source (name :: rest)) →
        session.disk.SameIn after.disk (folder ++ [name])) ∧
    ∃ ended, (converter.convert source destination).run after = .ok conversion ended ∧
      after.disk.SameIn ended.disk [] := by
  obtain ⟨loaded, plan, cleared, copied, load, sameDisk, named, -, planned, converts⟩ :=
    runs.convertsOver replaceable
  have overlays := converts.overlays
  rw [sameDisk] at overlays
  refine ⟨?_, ⟨plan, planned, ?_, ?_⟩, runs.convert_again replaceable⟩
  · intro other ended conversion' alike published runs' replaceable'
    obtain ⟨_, _, load', named', -⟩ := convert_eq_ok runs'.run
    have described := descriptor_eq_of_alikeBut alike published runs.apart feed load load'
    have same : conversion' = conversion := by
      refine Conversion.eq_of_fields described ?_ (runs'.converted.trans runs.converted.symm)
      rw [named', named, described]
    subst same
    refine ⟨rfl, ?_⟩
    obtain ⟨loaded', plan', cleared', copied', -, sameDisk', -, -, planned', again⟩ :=
      runs'.convertsOver replaceable'
    rw [planned] at planned'
    cases planned'
    rw [← sameDisk, ← sameDisk'] at alike
    rw [← sameDisk]
    exact converts.same_below alike again
  · intro rest shown
    rw [overlays.files, overlays.folders, shown]
    simp
  · intro name hidden absent rest
    have spared : spares (name :: rest) = true := hidden
    obtain ⟨unwritten, unmade⟩ := absent rest
    rw [List.append_assoc, List.singleton_append, overlays.files, overlays.folders, spared, if_pos rfl,
      imageFile_of_none unwritten]
    simp [unmade]

/-- A recipe and a wrapper, next to a folder that the recipe was converted to before. -/
def convertedOver (content : Tree) : Session where
  disk := { wrappedRecipe.disk with
    root := .folder "copy" (.folder "recipe" content .empty) wrappedRecipe.disk.root }

def repository : Tree :=
  .folder ".git" (.file "HEAD" ⟨"ref: refs/heads/main\n".toUTF8, false⟩ .empty) .empty

def overwritingCopy : Converter := { toWorkingCopy with overwrite := true }

theorem convertedOver_given :
    (overwritingCopy.convert ⟨"recipe"⟩ ⟨"copy"⟩).value?
        (convertedOver (.file "notes.md" ⟨.empty, false⟩ repository)) = some workingCopied ∧
      (overwritingCopy.convert ⟨"recipe"⟩ ⟨"copy"⟩).value?
        (convertedOver (.folder "app" .empty repository)) = some workingCopied := by
  constructor <;> decide +kernel

theorem convertedOver_place (content : Tree) (p : Path) :
    (convertedOver content).disk.place p = wrappedRecipe.disk.place p := rfl

theorem overwriting_forgets_convertedOver :
    ∃ after ended again,
      (overwritingCopy.convert ⟨"recipe"⟩ ⟨"copy"⟩).run
        (convertedOver (.file "notes.md" ⟨.empty, false⟩ repository)) = .ok workingCopied after ∧
      (overwritingCopy.convert ⟨"recipe"⟩ ⟨"copy"⟩).run
        (convertedOver (.folder "app" .empty repository)) = .ok workingCopied ended ∧
      (overwritingCopy.convert ⟨"recipe"⟩ ⟨"copy"⟩).run after = .ok workingCopied again ∧
      after.disk.SameIn ended.disk ["copy", "recipe"] ∧ after.disk.SameIn again.disk [] ∧
      after.disk.files ["copy", "recipe", ".git", "HEAD"] =
        some ⟨"ref: refs/heads/main\n".toUTF8, false⟩ := by
  have runs {content : Tree} (sound : (convertedOver content).disk.Sound)
      (given : (overwritingCopy.convert ⟨"recipe"⟩ ⟨"copy"⟩).value? (convertedOver content) =
        some workingCopied) :
      overwritingCopy.RunsOver ⟨"recipe"⟩ ⟨"copy"⟩ (convertedOver content) workingCopied
        ((overwritingCopy.convert ⟨"recipe"⟩ ⟨"copy"⟩).left (convertedOver content)) := by
    refine ⟨rfl, sound, run_eq_ok given, rfl, ?_, ?_⟩
    all_goals
      simp only [convertedOver_place]
      decide +kernel
  have sound : (convertedOver (.file "notes.md" ⟨.empty, false⟩ repository)).disk.Sound :=
    ⟨by decide +kernel, by simp [convertedOver, wrappedRecipe]⟩
  have otherSound : (convertedOver (.folder "app" .empty repository)).disk.Sound :=
    ⟨by decide +kernel, by simp [convertedOver, wrappedRecipe]⟩
  have replaceable {content : Tree} :
      (convertedOver content).disk.Replaceable workingCopied.destination :=
    Disk.replaceable_of_noStepUp (by decide) (by decide +kernel)
  have alike := alikeBut_of_clearing workingCopied.destination ⟨"copy/recipe"⟩ sound otherSound
    (by decide +kernel) (by decide +kernel) (by decide +kernel) rfl
  obtain ⟨forgets, ⟨plan, -, -, hidden⟩, again, run, same⟩ :=
    overwriting_forgets (runs sound convertedOver_given.1) replaceable
      fun shown => absurd shown.below (by decide +kernel)
  have other := runs otherSound convertedOver_given.2
  refine ⟨_, _, again, run_eq_ok convertedOver_given.1, other.run, run, ?_, same, ?_⟩
  · exact (forgets _ _ _ alike rfl other replaceable).2
  · have kept := hidden ".git" (by decide +kernel)
      (no_image (by decide +kernel) (by decide +kernel)) ["HEAD"]
    refine kept.1.trans ?_
    decide +kernel

/-- That conversions over what differs only in what their folder shows end in the same there, where
both disks meet a condition. -/
def ForgetsWhere (condition : Converter → Path → Disk → Prop) : Prop :=
  ∀ (converter : Converter) (source destination : Path) (session other after ended : Session)
    (conversion conversion' : Conversion),
    converter.RunsOver source destination session conversion after →
    converter.RunsOver source destination other conversion' ended →
    session.disk.AlikeBut conversion.destination other.disk → other.published = session.published →
    Apart (session.disk.place source)
      (session.disk.place converter.context.config.gradleResourcesPath) →
    condition converter conversion.destination session.disk →
    condition converter conversion.destination other.disk →
    after.disk.SameIn ended.disk (session.disk.place conversion.destination)

/-- A recipe, next to a folder to work in. -/
def workshop (least : String) (content : Tree) : Session where
  disk := {
    root := .folder "recipe"
      (.file "recipe_metadata.toml" ⟨("[agpVersion]\nmin = \"" ++ least ++ "\"\n").toUTF8, false⟩
        (.file "build.gradle" ⟨"agp $AGP_VERSION\n".toUTF8, false⟩ (.folder "app" .empty .empty)))
      (.folder "work" content .empty)
    here := ["work"] }

def feedOf (version : String) : Tree :=
  .file "feed.xml" ⟨("<version>" ++ version ++ "</version>").toUTF8, false⟩ .empty

def oldNotes : Tree := .file "notes.md" ⟨.empty, false⟩ .empty

def copyingFor (feed : Path) : Converter where
  mode := .workingCopy
  context := { singleLineContext with
    config.gradleResources := some ⟨"/kit"⟩
    config.feed := feed }
  overwrite := true
  withWrapper := false

/-- The copy of a recipe whose path has no last name. -/
def copiedTo (micro : UInt32) (destination : Path) : Conversion where
  descriptor := ⟨"", "", "", ⟨8, 1, micro, .final, 0⟩, none, [], none, []⟩
  destination := destination
  outcome := .converted

theorem workshop_place (least : String) (content : Tree) (p : Path) :
    (workshop least content).disk.place p = follow (if p.isAbsolute then [] else ["work"]) p.parts :=
  rfl

theorem workshop_sound {least : String} {content : Tree}
    (root : (workshop least content).disk.root.Sound) : (workshop least content).disk.Sound := by
  have here : ∀ name ∈ ["work"], ProperName name := by decide
  exact ⟨root, here⟩

theorem copyingFor_runsOver {least : String} {content : Tree} {feed destination : Path}
    {conversion : Conversion} (sound : (workshop least content).disk.Sound)
    (given : ((copyingFor feed).convert ⟨"/recipe/app/.."⟩ destination).value?
      (workshop least content) = some conversion)
    (there : (workshop least content).disk.place conversion.destination = ["work"])
    (converted : conversion.outcome = .converted) :
    (copyingFor feed).RunsOver ⟨"/recipe/app/.."⟩ destination (workshop least content) conversion
      (((copyingFor feed).convert ⟨"/recipe/app/.."⟩ destination).left (workshop least content)) := by
  have kit : (copyingFor feed).context.config.gradleResourcesPath = ⟨"/kit"⟩ := rfl
  refine ⟨rfl, sound, run_eq_ok given, converted, ?_, ?_⟩
  · rw [there, workshop_place]
    decide
  · rw [there, kit, workshop_place]
    decide

variable {condition : Converter → Path → Disk → Prop} in
/-- What follows for two conversions to the folder to work in, which clears to the same. -/
theorem ForgetsWhere.workshop_files (forgets : ForgetsWhere condition)
    (feed destination folder : Path) (least : String) (content content' : Tree) (micro micro' : UInt32)
    (root : (workshop least content).disk.root.Sound)
    (root' : (workshop least content').disk.root.Sound)
    (given : ((copyingFor feed).convert ⟨"/recipe/app/.."⟩ destination).value?
      (workshop least content) = some (copiedTo micro folder))
    (given' : ((copyingFor feed).convert ⟨"/recipe/app/.."⟩ destination).value?
      (workshop least content') = some (copiedTo micro' folder))
    (clears : (clearFolder ⟨"/work"⟩).value? (workshop least content) = some ())
    (clears' : (clearFolder ⟨"/work"⟩).value? (workshop least content') = some ())
    (same : ((clearFolder ⟨"/work"⟩).left (workshop least content')).disk =
      ((clearFolder ⟨"/work"⟩).left (workshop least content)).disk)
    (there : follow (if folder.isAbsolute then [] else ["work"]) folder.parts = ["work"])
    (met : condition (copyingFor feed) folder (workshop least content).disk)
    (met' : condition (copyingFor feed) folder (workshop least content').disk) (rest : Location) :
    (((copyingFor feed).convert ⟨"/recipe/app/.."⟩ destination).left
        (workshop least content')).disk.files (["work"] ++ rest) =
      (((copyingFor feed).convert ⟨"/recipe/app/.."⟩ destination).left
        (workshop least content)).disk.files (["work"] ++ rest) := by
  have sound := workshop_sound root
  have sound' := workshop_sound root'
  have alike : (workshop least content).disk.AlikeBut folder (workshop least content').disk := by
    refine alikeBut_of_clearing _ _ sound sound' clears clears' same ?_
    rw [workshop_place, workshop_place, there]
    decide
  have apart : Apart ((workshop least content).disk.place ⟨"/recipe/app/.."⟩)
      ((workshop least content).disk.place (copyingFor feed).context.config.gradleResourcesPath) := by
    have kit : (copyingFor feed).context.config.gradleResourcesPath = ⟨"/kit"⟩ := rfl
    rw [kit, workshop_place, workshop_place]
    decide
  have ends := forgets _ _ _ _ _ _ _ _ _ (copyingFor_runsOver sound given there rfl)
    (copyingFor_runsOver sound' given' there rfl) alike rfl apart met met' rest
  rw [workshop_place, copiedTo, there] at ends
  exact ends.1

theorem overwriting_forgets_fails :
    ¬ ForgetsWhere (fun _ folder d => d.Replaceable folder) ∧
      ¬ ForgetsWhere (fun converter folder d => folder.text ≠ "" ∧
        ¬ d.ShownIn folder (d.place converter.context.config.feed)) ∧
      ¬ ForgetsWhere (fun converter folder d => (∀ place, d.Passes folder place →
          place <+: d.place folder ∨ d.root.HasFolder place ∧ ¬ d.ShownIn folder place) ∧
        ¬ d.ShownIn folder (d.place converter.context.config.feed)) := by
  have unfed {folder : Path} {content : Tree}
      (there : follow (if folder.isAbsolute then [] else ["work"]) folder.parts = ["work"]) :
      ¬ (workshop "8.1.0" content).disk.ShownIn folder
        ((workshop "8.1.0" content).disk.place (copyingFor ⟨"/feed.xml"⟩).context.config.feed) := by
    intro shown
    have below := shown.below
    rw [workshop_place, there, workshop_place] at below
    revert below
    decide +kernel
  refine ⟨?_, ?_, ?_⟩
  · intro forgets
    -- The recipe is for the latest release, which the folder itself tells before it is cleared.
    have same := forgets.workshop_files ⟨"/work/feed.xml"⟩ ⟨"/work"⟩ ⟨"/work/"⟩ "8.1" (feedOf "8.1.0")
      (feedOf "8.1.4") 0 4
      (by decide +kernel) (by decide +kernel) (by decide +kernel) (by decide +kernel)
      (by decide +kernel) (by decide +kernel) (by decide +kernel) (by decide +kernel)
      (Disk.replaceable_of_noStepUp (by decide) (by decide +kernel))
      (Disk.replaceable_of_noStepUp (by decide) (by decide +kernel)) ["build.gradle"]
    revert same
    decide +kernel
  · intro forgets
    -- The path goes through a folder that is missing, so that nothing is seen at its end or cleared.
    have there : follow (if Path.isAbsolute ⟨"/new/../work/"⟩ then [] else ["work"])
        (Path.parts ⟨"/new/../work/"⟩) = ["work"] := by decide +kernel
    have same := forgets.workshop_files ⟨"/feed.xml"⟩ ⟨"/new/../work"⟩ ⟨"/new/../work/"⟩ "8.1.0" .empty
      oldNotes 0 0
      (by decide +kernel) (by decide +kernel) (by decide +kernel) (by decide +kernel)
      (by decide +kernel) (by decide +kernel) (by decide +kernel) there
      ⟨by decide, unfed there⟩ ⟨by decide, unfed there⟩ ["notes.md"]
    revert same
    decide +kernel
  · intro forgets
    -- The empty path is that of the current folder for what is copied, but not for what is cleared.
    have same := forgets.workshop_files ⟨"/feed.xml"⟩ ⟨""⟩ ⟨""⟩ "8.1.0" .empty oldNotes 0 0
      (by decide +kernel) (by decide +kernel) (by decide +kernel) (by decide +kernel)
      (by decide +kernel) (by decide +kernel) (by decide +kernel) (by decide +kernel)
      ⟨fun _ passes => absurd passes (Disk.not_passes_empty rfl), unfed (by decide +kernel)⟩
      ⟨fun _ passes => absurd passes (Disk.not_passes_empty rfl), unfed (by decide +kernel)⟩
      ["notes.md"]
    revert same
    decide +kernel

end Converter
end Cookbook
