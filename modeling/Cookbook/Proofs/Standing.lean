import Cookbook.Proofs.Disk.Masks
import Cookbook.Proofs.Disk.Retaining
import Cookbook.Proofs.Recipe.Reloading
import Cookbook.Proofs.Scratch

/-!
What stands while scratch folders come and go: the places that are in none of them, and what is taken to
be published.
-/

namespace Cookbook

open Action

/-! ## Places that last -/

namespace Disk

variable {d made : Disk} {p : Path} {place : Location} {own : Location → Prop}

/-- The path of the folder that scratch folders are made in, as seen from the top. -/
def scratchRoot (d : Disk) : Path :=
  if d.scratchHome.isAbsolute then d.scratchHome
  else (Path.ofPieces true d.here).join d.scratchHome

def scratchName (number : Nat) : String := ".tmp" ++ toString number

/-- The path of the scratch folder with a number. -/
def scratchPath (d : Disk) (number : Nat) : Path := d.scratchRoot.joinName (scratchName number)

theorem toList_scratchName (number : Nat) :
    (scratchName number).toList = ['.', 't', 'm', 'p'] ++ Nat.toDigits 10 number := by
  simp [scratchName, Nat.repr]

theorem scratchName_proper (number : Nat) : ProperName (scratchName number) := by
  have longer {other : String} (short : other.toList.length ≤ 2) : scratchName number ≠ other := by
    rintro rfl
    rw [toList_scratchName] at short
    simp at short
  refine ⟨longer (by decide), longer (by decide), longer (by decide), ?_⟩
  rw [toList_scratchName, List.mem_append, not_or]
  refine ⟨by decide, ?_⟩
  intro slash
  have digit := Nat.isDigit_of_mem_toDigits (by decide) (by decide) slash
  revert digit
  decide

/-- That a place is neither one that Gradle keeps for its own nor in a scratch folder that is yet to be
made. -/
def Lasting (own : Location → Prop) (d : Disk) (place : Location) : Prop :=
  ¬ own place ∧ ∀ number, d.scratchMade ≤ number → ¬ d.place (d.scratchPath number) <+: place

theorem Lasting.notNext (lasting : d.Lasting own place) : ¬ d.place d.nextScratch <+: place :=
  lasting.2 d.scratchMade (Nat.le_refl _)

namespace Retains

variable {kept : Location → Prop} {count : Nat} (retains : d.Retains kept count made)
include retains

theorem scratchPath (number : Nat) : made.scratchPath number = d.scratchPath number := by
  rw [retains.same]
  rfl

theorem scratchRoot : made.scratchRoot = d.scratchRoot := by
  rw [retains.same]
  rfl

theorem lasting (lasting : d.Lasting own place) : made.Lasting own place := by
  refine ⟨lasting.1, ?_⟩
  intro number later
  rw [retains.scratchPath, retains.place]
  exact lasting.2 number (Nat.le_trans retains.least later)

theorem clear (clear : d.Clear (d.Lasting own) p) : made.Clear (made.Lasting own) p :=
  (clear.mono fun _ => retains.lasting).congr retains.here

theorem safe (safe : d.Safe (d.Lasting own) p) : made.Safe (made.Lasting own) p :=
  (safe.mono fun _ => retains.lasting).congr retains.here

end Retains

theorem openScratch_retains (sound : d.Sound) (opened : d.openScratch = .ok made) :
    d.Retains (fun place => ¬ d.place d.nextScratch <+: place) 1 made := by
  have countedSound : d.countScratch.Sound := ⟨sound.root, sound.here⟩
  have becomes := createFolder_becomes countedSound opened
  have counted : made.scratchMade = d.scratchMade + 1 := by
    rw [becomes.same]
    rfl
  refine ⟨?_, becomes.root, by omega, by omega, fun place _ => ?_, fun place outside => ?_⟩
  · rw [becomes.same]
    rfl
  · rw [becomes.files]
    rfl
  · rw [createFolder_adds opened, place_withoutLastSlash]
    refine or_iff_left ?_
    rintro rfl
    exact outside List.prefix_rfl

/-- That a path leads to an empty folder. -/
structure Fresh (d : Disk) (folder : Path) : Prop where
  leads : d.Leads folder
  empty : d.root.at? (d.place folder) = some (.folder .empty)

theorem Fresh.sees {folder : Path} (fresh : d.Fresh folder) : d.Sees nothing (d.place folder) folder := by
  intro steps starts name rest same
  have there : d.root.HasFolder _ := fresh.leads.clear (fun _ => id) steps starts
  rw [same, Tree.HasFolder, Tree.at?_append fresh.empty] at there
  obtain ⟨content, inside⟩ := there
  cases inside

theorem remove_retains (sound : d.Sound) (removed : d.remove p = .ok made) :
    d.Retains (fun place => ¬ d.place p <+: place) 0 made := by
  have becomes := remove_becomes sound removed
  have counted : made.scratchMade = d.scratchMade := by rw [becomes.same]
  refine ⟨?_, becomes.root, by omega, by omega, fun place outside => ?_, fun place outside => ⟨?_, ?_⟩⟩
  · rw [counted]
    exact becomes.same
  · rw [becomes.files]
    exact if_neg outside
  · exact remove_fewerFolders sound removed place
  · exact remove_folders sound removed outside

end Disk

/-! ## Sessions -/

section Feed

variable {context : Context} {session after : Session} {kept : Location → Prop} {count : Nat}

theorem Action.ofExcept_outcome {α : Type} (result : Except Failure α) (session : Session) :
    (Action.ofExcept result).outcome session = result := by
  cases result <;> rfl

theorem Context.readFeed_outcome (context : Context) (session : Session) :
    context.readFeed.outcome session =
      if session.disk.isFile context.config.feed then
        match session.disk.readText context.config.feed with
        | .ok text => Feed.latest text context.table.keys
        | .error fault => .error (.io context.config.feed fault)
      else .error (.missingFile context.config.feed) := by
  have checked : (isFile context.config.feed).run session =
      .ok (session.disk.isFile context.config.feed) session := rfl
  unfold readFeed
  rw [outcome_bind_of_ok checked]
  split
  · cases read : session.disk.readText context.config.feed with
    | ok text =>
        rw [outcome_bind_of_ok (readText_eq_ok.mpr ⟨read, rfl⟩), ofExcept_outcome]
    | error fault => exact outcome_of_error (run_bind_of_error (look_of_error read))
  · rfl

theorem sameFeed_of_retains (published : after.published = session.published)
    (retains : session.disk.Retains kept count after.disk)
    (clear : session.disk.Clear kept context.config.feed) : SameFeed context session after := by
  refine sameFeed_of_readFeed published ?_
  rw [Context.readFeed_outcome, Context.readFeed_outcome, retains.isFile clear]
  split
  · next file => rw [retains.readText clear file]
  · rfl

end Feed

/-- That a session has gone on from another one and left what lasts as it was, with at most so many
scratch folders made in between. -/
structure Session.Stands (context : Context) (own : Location → Prop) (count : Nat)
    (start session : Session) : Prop where
  disk : start.disk.Retains (start.disk.Lasting own) count session.disk
  feed : SameFeed context start session

namespace Session.Stands

variable {context : Context} {own : Location → Prop} {count further : Nat}
  {start between session : Session}

theorem refl (sound : session.disk.Sound) : Stands context own 0 session session :=
  ⟨.refl sound, refl_of (SameFeed context) session⟩

theorem more (stands : Stands context own count start session) (more : count ≤ further) :
    Stands context own further start session :=
  ⟨stands.disk.mono (fun _ => id) more, stands.feed⟩

theorem reading (stands : Stands context own count start between)
    (disk : session.disk = between.disk) (feed : SameFeed context between session) :
    Stands context own count start session :=
  ⟨disk ▸ stands.disk, trans_of (SameFeed context) stands.feed feed⟩

theorem onward (stands : Stands context own count start between)
    (clear : start.disk.Clear (start.disk.Lasting own) context.config.feed)
    (published : session.published = between.published)
    (retains : between.disk.Retains (start.disk.Lasting own) further session.disk) :
    Stands context own (count + further) start session := by
  refine ⟨stands.disk.trans retains, trans_of (SameFeed context) stands.feed ?_⟩
  exact sameFeed_of_retains published retains (clear.congr stands.disk.here)

theorem opened {made : Disk} (sound : start.disk.Sound)
    (clear : start.disk.Clear (start.disk.Lasting own) context.config.feed)
    (stands : Stands context own count start session)
    (opened : session.disk.openScratch = .ok made) :
    Stands context own (count + 1) start { session with disk := made } := by
  refine stands.onward clear rfl ?_
  refine (Disk.openScratch_retains (stands.disk.sound sound) opened).mono ?_ (Nat.le_refl 1)
  exact fun place lasting => (stands.disk.lasting lasting).notNext

theorem dropped {ended : Session} {made : Nat} (sound : start.disk.Sound)
    (clear : start.disk.Clear (start.disk.Lasting own) context.config.feed)
    (before : Stands context own count start session) (stands : Stands context own made start ended) :
    Stands context own made start (ended.dropScratch session.disk.nextScratch) := by
  unfold Session.dropScratch
  split
  · next disk removed =>
      have onward : Stands context own (made + 0) start { ended with disk } := by
        refine stands.onward clear rfl ?_
        refine (Disk.remove_retains (stands.disk.sound sound) removed).mono ?_ (Nat.le_refl 0)
        intro place lasting
        rw [stands.disk.place, ← before.disk.place]
        exact (before.disk.lasting lasting).notNext
      exact onward
  · exact stands

end Session.Stands

end Cookbook
