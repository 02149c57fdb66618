import Cookbook.Proofs.Convert.Conversion
import Cookbook.Proofs.Convert.Wrapper
import Cookbook.Proofs.Disk.Ways

/-!
Where conversions write. Whether it succeeds or fails, a conversion changes only files at and below the
folder that the recipe is written to, and takes folders away only there and only to overwrite.
-/

namespace Cookbook

/-! ## Changes of one file -/

/-- That a disk is another one but for the file at a place. -/
structure Disk.ChangesFile (place : Location) (d made : Disk) : Prop where
  becomes : d.Becomes made made.files
  folders : d.SameFolders made
  others : ∀ other, other ≠ place → made.files other = d.files other

namespace Disk

variable {d between made : Disk} {p : Path} {place : Location}

theorem ChangesFile.trans (first : ChangesFile place d between)
    (second : ChangesFile place between made) : ChangesFile place d made := by
  refine ⟨first.becomes.trans second.becomes, first.folders.trans second.folders, ?_⟩
  intro other different
  rw [second.others other different, first.others other different]

theorem Becomes.changesFile {data : Option FileData}
    (becomes : d.Becomes made (Function.update d.files place data)) (folders : d.SameFolders made) :
    ChangesFile place d made := by
  refine ⟨becomes.own, folders, ?_⟩
  intro other different
  rw [becomes.files, Function.update_of_ne different]

theorem writeFile_changesFile (sound : d.Sound) {bytes : ByteArray}
    (written : d.writeFile p bytes = .ok made) : ChangesFile (d.place p) d made :=
  (writeFile_becomes sound written).changesFile (writeFile_sameFolders written)

theorem setExecutable_changesFile (sound : d.Sound) {executable : Bool}
    (changed : d.setExecutable p executable = .ok made) : ChangesFile (d.place p) d made := by
  obtain ⟨data, -, becomes⟩ := setExecutable_becomes sound changed
  exact becomes.changesFile (setExecutable_sameFolders changed)

theorem copyFile_changesFile (sound : d.Sound) {source target : Path}
    (copied : d.copyFile source target = .ok made) : ChangesFile (d.place target) d made := by
  obtain ⟨data, emptied, read, written, -, emptying, -, writing, setting⟩ := copyFile_eq_ok copied
  have first := writeFile_changesFile sound emptying
  have emptiedSound := first.becomes.sound sound
  have second := writeFile_changesFile emptiedSound writing
  have third := setExecutable_changesFile (second.becomes.sound emptiedSound) setting
  rw [second.becomes.place, first.becomes.place] at third
  rw [first.becomes.place] at second
  exact (first.trans second).trans third

end Disk

/-! ## Changes below a place -/

/-- That a disk is another one but for what is at and below a place. Folders go away only there, and
only if clearing is allowed. -/
structure Disk.ChangesBelow (folder : Location) (clears : Bool) (d made : Disk) : Prop where
  becomes : d.Becomes made made.files
  outside : ∀ place, ¬ folder <+: place → made.files place = d.files place
  folders : ∀ place, (clears = true → ¬ folder <+: place) → d.root.HasFolder place →
    made.root.HasFolder place

namespace Disk

variable {d between made : Disk} {p : Path} {folder : Location} {clears : Bool}

theorem ChangesBelow.refl (sound : d.Sound) : ChangesBelow folder clears d d :=
  ⟨.refl sound, fun _ _ => rfl, fun _ _ there => there⟩

theorem ChangesBelow.trans (first : ChangesBelow folder clears d between)
    (second : ChangesBelow folder clears between made) : ChangesBelow folder clears d made := by
  refine ⟨first.becomes.trans second.becomes, ?_, ?_⟩
  · intro place outside
    rw [second.outside place outside, first.outside place outside]
  · exact fun place kept there => second.folders place kept (first.folders place kept there)

theorem ChangesBelow.keepsFolders (changes : ChangesBelow folder false d made) :
    d.KeepsFolders made :=
  fun place => changes.folders place fun absurdity => nomatch absurdity

theorem ChangesFile.changesBelow {place : Location} (changes : ChangesFile place d made)
    (below : folder <+: place) : ChangesBelow folder clears d made := by
  refine ⟨changes.becomes, ?_, fun place _ => changes.folders.keeps place⟩
  intro other outside
  apply changes.others
  rintro rfl
  exact outside below

theorem createFolders_changesBelow (sound : d.Sound) (p : Path) :
    ChangesBelow folder clears d (d.createFolders p).1 := by
  have becomes := createFolders_becomes sound p
  refine ⟨becomes.own, ?_, fun place _ => d.createFolders_keepsFolders p place⟩
  intro place _
  rw [becomes.files]

theorem remove_changesBelow (sound : d.Sound) (below : folder <+: d.place p)
    (removed : d.remove p = .ok made) : ChangesBelow folder true d made := by
  have becomes := remove_becomes sound removed
  refine ⟨becomes.own, ?_, ?_⟩
  · intro place outside
    rw [becomes.files]
    exact if_neg fun inside => outside (below.trans inside)
  · intro place outside there
    exact remove_folders sound removed (fun inside => outside rfl (below.trans inside)) there

end Disk

/-! ## What conversions do in a folder -/

/-- What a relation between sessions has to allow for conversions to keep it: paths inside are written
to, folders are made there, and what such a path leads to is removed if clearing is allowed. -/
structure Permits (relation : Session → Session → Prop) (inside : Path → Prop) (clears : Bool) :
    Prop where
  unsound {session after : Session} : ¬ session.disk.Sound → relation session after
  join {p q : Path} : inside p → q.isAbsolute = false → (∀ step ∈ q.parts, ProperName step) →
    inside (p.join q)
  changesFile {target : Path} {session : Session} {disk : Disk} :
    inside target → session.disk.Sound →
      Disk.ChangesFile (session.disk.place target) session.disk disk →
      relation session { session with disk }
  createFolders {target : Path} {session : Session} : inside target → session.disk.Sound →
    relation session { session with disk := (session.disk.createFolders target).1 }
  remove {target : Path} {session : Session} {disk : Disk} : clears = true → inside target →
    session.disk.Sound → session.disk.remove target = .ok disk → relation session { session with disk }

open Action

namespace Permits

variable {relation : Session → Session → Prop} {inside : Path → Prop} {clears : Bool}
  {source target : Path} {plan : Plan}

theorem joinName (permits : Permits relation inside clears) (below : inside target) {name : String}
    (proper : ProperName name) : inside (target.joinName name) := by
  refine permits.join below (Path.isRelative_of_proper proper) ?_
  rw [Path.parts_single proper]
  exact List.forall_mem_singleton.mpr proper

theorem rootTarget (permits : Permits relation inside clears) (below : inside target) :
    inside (Copy.rootTarget target) := by
  refine permits.join below Path.isAbsolute_empty ?_
  rw [Path.parts_empty]
  exact List.forall_mem_nil _

theorem makeFolders (permits : Permits relation inside clears) (below : inside target) :
    Keeps relation (Action.createFolders target) := by
  refine keeps_createFolders ?_
  intro session
  by_cases sound : session.disk.Sound
  · exact permits.createFolders below sound
  · exact permits.unsound sound

variable [IsPreorder Session relation]

theorem look_bind {α β : Type} (permits : Permits relation inside clears) {path : Path}
    {ask : Disk → Except DiskFault α} {next : α → Action β}
    (onward : ∀ session value, session.disk.Sound → ask session.disk = .ok value →
      relation session ((next value).left session)) : Keeps relation (look path ask >>= next) := by
  refine keeps_look_bind ?_
  intro session value answer
  by_cases sound : session.disk.Sound
  · exact onward session value sound answer
  · exact permits.unsound sound

theorem change (permits : Permits relation inside clears) {path : Path}
    {f : Disk → Except DiskFault Disk}
    (step : ∀ session disk, session.disk.Sound → f session.disk = .ok disk →
      relation session { session with disk }) : Keeps relation (Action.change path f) :=
  permits.look_bind step

theorem writeText (permits : Permits relation inside clears) (below : inside target)
    (text : String) : Keeps relation (Action.writeText target text) :=
  permits.change fun _ _ sound written =>
    permits.changesFile below sound (Disk.writeFile_changesFile sound written)

theorem fillFile (permits : Permits relation inside clears) (below : inside target)
    (template : Template) : Keeps relation (Copy.fillFile plan template source target) :=
  keeps_bind (keeps_look _ _) fun _ => permits.writeText below _

theorem copyFile (permits : Permits relation inside clears) (below : inside target) :
    Keeps relation (Copy.copyFile source target) :=
  permits.change fun _ _ sound copied =>
    permits.changesFile below sound (Disk.copyFile_changesFile sound copied)

theorem recipeFile (permits : Permits relation inside clears) (below : inside target)
    (name : String) : Keeps relation (Copy.recipeFile plan name source target) := by
  unfold Copy.recipeFile
  split
  · exact keeps_pure ()
  · exact permits.fillFile below _
  · exact permits.copyFile below

section Walks

variable {depth : Nat} {entry : String × Entry}

theorem recipeEntry_of (permits : Permits relation inside clears) (below : inside target)
    (proper : ProperName entry.1)
    (inner : ∀ {source target : Path}, inside target →
      Keeps relation (Copy.recipeFolder plan depth source target)) :
    Keeps relation (Copy.recipeEntry plan depth source target entry) := by
  obtain ⟨name, entry⟩ := entry
  simp only [Copy.recipeEntry]
  split
  · split
    · exact keeps_pure ()
    · exact inner (permits.joinName below proper)
  · exact permits.recipeFile (permits.joinName below proper) _

theorem recipeFolder (permits : Permits relation inside clears) (below : inside target)
    (depth : Nat) : Keeps relation (Copy.recipeFolder plan depth source target) := by
  induction depth generalizing source target with
  | zero => exact keeps_throw _
  | succ depth ih =>
      rw [Copy.recipeFolder]
      refine permits.look_bind ?_
      intro session tree sound list
      have proper := (Disk.lists_of_list sound list).proper
      refine keeps_bind (permits.makeFolders below) ?_ session
      intro _
      exact keeps_forM fun entry member =>
        permits.recipeEntry_of below (proper _ (Tree.mem_inOrder.mp member)) ih

theorem recipeEntry (permits : Permits relation inside clears) (below : inside target)
    (proper : ProperName entry.1) :
    Keeps relation (Copy.recipeEntry plan depth source target entry) :=
  permits.recipeEntry_of below proper fun below => permits.recipeFolder below _

theorem wholeEntry_of (permits : Permits relation inside clears) (below : inside target)
    (proper : ProperName entry.1)
    (inner : ∀ {source target : Path}, inside target →
      Keeps relation (Copy.wholeFolder depth source target)) :
    Keeps relation (Copy.wholeEntry depth source target entry) := by
  have within := permits.joinName below proper
  obtain ⟨name, entry⟩ := entry
  simp only [Copy.wholeEntry]
  split
  · exact inner within
  · exact permits.copyFile within

theorem wholeFolder (permits : Permits relation inside clears) (below : inside target)
    (depth : Nat) : Keeps relation (Copy.wholeFolder depth source target) := by
  induction depth generalizing source target with
  | zero => exact keeps_throw _
  | succ depth ih =>
      rw [Copy.wholeFolder]
      refine keeps_bind (permits.makeFolders below) ?_
      intro _
      refine permits.look_bind ?_
      intro session tree sound list
      have proper := (Disk.lists_of_list sound list).proper
      exact (keeps_forM fun entry member =>
        permits.wholeEntry_of below (proper _ member) ih : Keeps relation _) session

theorem wholeEntry (permits : Permits relation inside clears) (below : inside target)
    (proper : ProperName entry.1) :
    Keeps relation (Copy.wholeEntry depth source target entry) :=
  permits.wholeEntry_of below proper fun below => permits.wholeFolder below _

end Walks

theorem recipe (permits : Permits relation inside clears) (below : inside target) (source : Path) :
    Keeps relation (Copy.recipe plan source target) :=
  keeps_bind (keeps_bind keeps_get fun _ => keeps_pure _)
    fun _ => permits.recipeFolder (permits.rootTarget below) _

theorem whole (permits : Permits relation inside clears) (below : inside target) (source : Path) :
    Keeps relation (Copy.whole source target) :=
  keeps_bind (keeps_bind keeps_get fun _ => keeps_pure _)
    fun _ => permits.wholeFolder (permits.rootTarget below) _

theorem clearFolder (permits : Permits relation inside clears) (allowed : clears = true)
    (below : inside target) : Keeps relation (Cookbook.clearFolder target) := by
  unfold Cookbook.clearFolder
  refine permits.look_bind ?_
  intro session tree sound list
  have proper := (Disk.lists_of_list sound list).proper
  refine (keeps_forM ?_ : Keeps relation _) session
  rintro ⟨name, entry⟩ member
  dsimp only
  unfold clearEntry
  split
  · exact permits.change fun _ _ sound removed =>
      permits.remove allowed (permits.joinName below (proper _ member)) sound removed
  · exact keeps_pure ()

variable {converter : Converter}

theorem addWrapper (permits : Permits relation inside clears) (below : inside target) :
    Keeps relation (converter.addWrapper target plan) := by
  have properties : inside (target.join Converter.wrapperProperties) :=
    permits.join below Converter.isAbsolute_wrapperProperties Converter.proper_wrapperProperties
  have script : inside (target.join Converter.wrapperScript) :=
    permits.join below Converter.isAbsolute_wrapperScript
      (List.forall_mem_singleton.mpr Converter.proper_wrapperScript)
  unfold Converter.addWrapper
  refine keeps_throwUnless (keeps_isFolder _) ?_
  refine keeps_bind (permits.whole below _) ?_
  intro _
  refine keeps_throwUnless (keeps_isFile _) ?_
  refine keeps_bind (permits.fillFile properties .wrapper) ?_
  intro _
  refine keeps_bind (keeps_isFile _) ?_
  intro present
  split
  · exact permits.change fun _ _ sound changed =>
      permits.changesFile script sound (Disk.setExecutable_changesFile sound changed)
  · exact keeps_pure ()

theorem clearDestination (permits : Permits relation inside converter.overwrite)
    (below : inside target) : Keeps relation (converter.clearDestination target) :=
  Converter.keeps_clearDestination fun overwrite => permits.clearFolder overwrite below

end Permits

/-! ## Actions that stay in a folder -/

/-- That a session is another one but for what a path leads to, and what was printed and remembered. -/
def Confined (folder : Path) (clears : Bool) (session after : Session) : Prop :=
  session.disk.Sound → Disk.ChangesBelow (session.disk.place folder) clears session.disk after.disk

instance (folder : Path) (clears : Bool) : IsPreorder Session (Confined folder clears) where
  refl _ sound := .refl sound
  trans _ _ _ first second sound := by
    have changes := first sound
    have further := second (changes.becomes.sound sound)
    rw [changes.becomes.place] at further
    exact changes.trans further

/-- That a path leads to what another one leads to or below it, wherever both start. -/
def Path.Below (target folder : Path) : Prop := ∀ d : Disk, d.place folder <+: d.place target

theorem Path.Below.refl (folder : Path) : folder.Below folder := fun _ => List.prefix_rfl

theorem confined_permits (folder : Path) (clears : Bool) :
    Permits (Confined folder clears) (·.Below folder) clears where
  unsound unsound sound := absurd sound unsound
  join below relative proper d := by
    rw [Disk.place_join _ relative, follow_names proper]
    exact (below d).trans (List.prefix_append _ _)
  changesFile below _ changes _ := changes.changesBelow (below _)
  createFolders _ sound _ := Disk.createFolders_changesBelow sound _
  remove allowed below sound removed _ :=
    allowed ▸ Disk.remove_changesBelow sound (below _) removed

variable {folder source target : Path} {clears : Bool} {plan : Plan}

theorem writeText_confined (below : target.Below folder) (text : String) :
    Keeps (Confined folder clears) (writeText target text) :=
  (confined_permits folder clears).writeText below text

theorem createFolders_keepsFiles (target : Path) :
    Keeps (fun session after => session.disk.Sound →
      session.disk.Becomes after.disk session.disk.files) (createFolders target) :=
  keeps_createFolders fun _ sound => Disk.createFolders_becomes sound target

theorem createFolders_keepsFolders (target : Path) :
    Keeps (fun session after => session.disk.KeepsFolders after.disk) (createFolders target) :=
  keeps_createFolders fun session => session.disk.createFolders_keepsFolders target

namespace Copy

theorem recipe_confined (source destination : Path) :
    Keeps (Confined destination clears) (recipe plan source destination) :=
  (confined_permits destination clears).recipe (.refl _) source

theorem created_leads {entries : List (String × Entry)} {step : String × Entry → Action Unit}
    {session begun after : Session} (sound : session.disk.Sound)
    (creating : (createFolders target).run session = .ok () begun)
    (confined : ∀ entry ∈ entries, Keeps (Confined target false) (step entry))
    (run : (entries.forM step).run begun = .ok () after) :
    target.text = "" ∨
      after.disk.Leads target ∧ after.disk.refuse? target.withoutLastSlash = none := by
  have created := createFolders_becomes sound creating
  obtain ⟨disk, making, rfl⟩ := createFolders_eq_ok.mp creating
  refine (Disk.createFolders_leads making).imp_right ?_
  rintro ⟨leads, accepted⟩
  have filled : Confined target false { session with disk } after := (keeps_forM confined).ok run
  have changes := filled (created.sound sound)
  refine ⟨leads.mono changes.becomes.same changes.keepsFolders, ?_⟩
  rwa [changes.becomes.refuse?]

theorem recipeFolder_leads {depth : Nat} {session after : Session} (sound : session.disk.Sound)
    (run : (recipeFolder plan depth source target).run session = .ok () after) :
    target.text = "" ∨
      after.disk.Leads target ∧ after.disk.refuse? target.withoutLastSlash = none := by
  obtain ⟨below, tree, begun, -, list, creating, filling⟩ := recipeFolder_eq_ok.mp run
  have proper := (Disk.lists_of_list sound list).proper
  refine created_leads sound creating (fun entry member => ?_) filling
  exact (confined_permits target false).recipeEntry (.refl target)
    (proper _ (Tree.mem_inOrder.mp member))

theorem wholeFolder_leads {depth : Nat} {session after : Session} (sound : session.disk.Sound)
    (run : (wholeFolder depth source target).run session = .ok () after) :
    target.text = "" ∨
      after.disk.Leads target ∧ after.disk.refuse? target.withoutLastSlash = none := by
  obtain ⟨below, begun, tree, -, creating, list, filling⟩ := wholeFolder_eq_ok.mp run
  have begunSound := (createFolders_becomes sound creating).sound sound
  have proper := (Disk.lists_of_list begunSound list).proper
  refine created_leads sound creating (fun entry member => ?_) filling
  exact (confined_permits target false).wholeEntry (.refl target) (proper _ member)

theorem text_rootTarget (destination : Path) :
    ∃ rest, (rootTarget destination).text = destination.text ++ rest :=
  Path.text_join Path.isAbsolute_empty

theorem text_rootTarget_ne_empty {destination : Path} (nonempty : destination.text ≠ "") :
    (rootTarget destination).text ≠ "" := by
  obtain ⟨rest, longer⟩ := text_rootTarget destination
  rw [longer]
  exact fun empty => nonempty (String.append_eq_empty_iff.mp empty).1

theorem withoutLastSlash_rootTarget {destination : Path} (nonempty : destination.text ≠ "")
    (ends : destination.endsInSlash = false) :
    (rootTarget destination).withoutLastSlash = destination := by
  obtain ⟨front, last, characters⟩ : ∃ front last, destination.text.toList = front ++ [last] := by
    have some_ : destination.text.toList ≠ [] := by simpa using nonempty
    exact ⟨_, _, (List.dropLast_concat_getLast some_).symm⟩
  have noSlash : last ≠ '/' := by
    rintro rfl
    have slash := (Path.endsInSlash_iff destination).mpr (by simp [characters])
    rw [ends] at slash
    cases slash
  have text : (rootTarget destination).text.toList = front ++ [last, '/'] := by
    simp [rootTarget, Path.joinName, Path.join, nonempty, ends, characters]
  have kept : ((rootTarget destination).text.toList.reverse.dropWhile (· = '/')).reverse =
      destination.text.toList := by
    simp [text, characters, noSlash]
  unfold Path.withoutLastSlash
  rw [kept]
  split
  · next empty => simp [characters] at empty
  · simp

theorem leads_of_rootTarget {d : Disk} {destination : Path} (leads : d.Leads (rootTarget destination)) :
    d.Leads destination :=
  leads.congr (isAbsolute_rootTarget destination).symm (parts_rootTarget destination).symm

theorem recipe_creates {session after : Session} {destination : Path}
    (run : (recipe plan source destination).run session = .ok () after) :
    session.disk.isFolder source = true ∧
      ∃ made, session.disk.createFolders (rootTarget destination) = (made, .ok ()) := by
  rw [recipe_run] at run
  obtain ⟨below, tree, begun, -, list, creating, -⟩ := recipeFolder_eq_ok.mp run
  obtain ⟨disk, created, -⟩ := createFolders_eq_ok.mp creating
  exact ⟨Disk.isFolder_of_list list, disk, created⟩

theorem recipe_leads {session after : Session} {destination : Path} (sound : session.disk.Sound)
    (nonempty : destination.text ≠ "")
    (run : (recipe plan source destination).run session = .ok () after) :
    after.disk.Leads destination ∧
      after.disk.refuse? (rootTarget destination).withoutLastSlash = none := by
  rw [recipe_run] at run
  obtain empty | ⟨leads, accepted⟩ := recipeFolder_leads sound run
  · exact absurd empty (text_rootTarget_ne_empty nonempty)
  · exact ⟨leads_of_rootTarget leads, accepted⟩

theorem recipe_isFolder {session after : Session} {destination : Path} (sound : session.disk.Sound)
    (nonempty : destination.text ≠ "") (ends : destination.endsInSlash = false)
    (run : (recipe plan source destination).run session = .ok () after) :
    after.disk.isFolder destination = true := by
  obtain ⟨leads, accepted⟩ := recipe_leads sound nonempty run
  rw [withoutLastSlash_rootTarget nonempty ends] at accepted
  exact Disk.isFolder_iff.mpr ⟨accepted, leads⟩

end Copy

theorem clearFolder_confined (folder : Path) :
    Keeps (Confined folder true) (clearFolder folder) :=
  (confined_permits folder true).clearFolder rfl (.refl folder)

namespace Converter

variable {converter : Converter} {destination : Path} {session : Session}

theorem addWrapper_confined (destination : Path) :
    Keeps (Confined destination clears) (converter.addWrapper destination plan) :=
  (confined_permits destination clears).addWrapper (.refl destination)

theorem clearDestination_confined (destination : Path) :
    Keeps (Confined destination converter.overwrite) (converter.clearDestination destination) :=
  (confined_permits destination converter.overwrite).clearDestination (.refl destination)

/-- The folder that the recipe in a folder would be written to, if its descriptor can be loaded. -/
def target? (converter : Converter) (source destination : Path) (session : Session) : Option Path :=
  ((Descriptor.load source converter.context).value? session).map fun descriptor =>
    destination.joinName (converter.mode.destinationName descriptor)

/-- What a conversion does once the descriptor is loaded. -/
def carryOut (converter : Converter) (source target : Path) (descriptor : Descriptor) :
    Action Conversion := do
  converter.clearDestination target
  if !converter.mode.accepts descriptor then
    return { descriptor, destination := target, outcome := .nonCompliant }
  let plan ← Action.ofExcept (converter.mode.plan descriptor converter.context)
  Copy.recipe plan source target
  if converter.withWrapper && !converter.mode.isSource then
    converter.addWrapper target plan
  return { descriptor, destination := target, outcome := .converted }

theorem convert_eq (converter : Converter) (source destination : Path) :
    converter.convert source destination = (do
      if !(← isFolder source) then throw (.notAFolder source)
      let descriptor ← Descriptor.load source converter.context
      converter.carryOut source (destination.joinName (converter.mode.destinationName descriptor))
        descriptor) :=
  rfl

theorem convert_left (converter : Converter) (source destination : Path) (session : Session) :
    SameDisk session ((converter.convert source destination).left session) ∨
      ∃ descriptor loaded,
        (Descriptor.load source converter.context).run session = .ok descriptor loaded ∧
        (converter.convert source destination).left session =
          (converter.carryOut source
            (destination.joinName (converter.mode.destinationName descriptor)) descriptor).left
            loaded := by
  have looked : (isFolder source).run session = .ok (session.disk.isFolder source) session := rfl
  rw [convert_eq, left_bind_of_ok looked]
  cases session.disk.isFolder source with
  | false => exact .inl rfl
  | true =>
      simp only [Bool.not_true, Bool.false_eq_true, if_false]
      cases load : (Descriptor.load source converter.context).run session with
      | error failure loaded =>
          left
          rw [left_bind_of_error load, ← left_of_error load]
          exact Descriptor.load_sameDisk source converter.context session
      | ok descriptor loaded => exact .inr ⟨descriptor, loaded, rfl, left_bind_of_ok load⟩

theorem carryOut_keeps {relation : Session → Session → Prop} [IsPreorder Session relation]
    {inside : Path → Prop} (permits : Permits relation inside converter.overwrite) {target : Path}
    (below : inside target) (source : Path) (descriptor : Descriptor) :
    Keeps relation (converter.carryOut source target descriptor) := by
  unfold carryOut
  refine keeps_bind (permits.clearDestination below) ?_
  intro _
  split
  · exact keeps_pure _
  · refine keeps_bind (keeps_ofExcept _) ?_
    intro plan
    refine keeps_bind (permits.recipe below source) ?_
    intro _
    split
    · exact keeps_bind (permits.addWrapper below) fun _ => keeps_pure _
    · exact keeps_pure _

theorem carryOut_confined (source target : Path) (descriptor : Descriptor) :
    Keeps (Confined target converter.overwrite) (converter.carryOut source target descriptor) :=
  carryOut_keeps (confined_permits target _) (.refl target) source descriptor

theorem target?_of_load {source destination : Path} {descriptor : Descriptor} {loaded : Session}
    (load : (Descriptor.load source converter.context).run session = .ok descriptor loaded) :
    converter.target? source destination session =
      some (destination.joinName (converter.mode.destinationName descriptor)) := by
  rw [target?, value?, load]
  rfl

theorem convert_changes (converter : Converter) (source destination : Path) (session : Session) :
    SameDisk session ((converter.convert source destination).left session) ∨
      ∃ target, converter.target? source destination session = some target ∧
        Confined target converter.overwrite session
          ((converter.convert source destination).left session) := by
  obtain same | ⟨descriptor, loaded, load, left⟩ := converter.convert_left source destination session
  · exact .inl same
  · have sameDisk : loaded.disk = session.disk := (Descriptor.load_sameDisk _ _).ok load
    refine .inr ⟨_, target?_of_load load, ?_⟩
    rw [left, Confined, ← sameDisk]
    exact carryOut_confined source _ descriptor loaded

end Converter

end Cookbook
