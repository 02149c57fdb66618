import Cookbook.Proofs.Disk.Ways
import Cookbook.Proofs.Session

/-!
Scratch folders: what an action in one comes to, which path it is given and what is taken away after it.
-/

namespace Cookbook

/-- The path of the next scratch folder. -/
def Disk.nextScratch (d : Disk) : Path :=
  (if d.scratchHome.isAbsolute then d.scratchHome
    else (Path.ofPieces true d.here).join d.scratchHome).joinName (".tmp" ++ toString d.scratchMade)

def Disk.countScratch (d : Disk) : Disk := { d with scratchMade := d.scratchMade + 1 }

/-- The disk with the next scratch folder on it. -/
def Disk.openScratch (d : Disk) : Except DiskFault Disk := d.countScratch.createFolder d.nextScratch

theorem Disk.openScratch_readText {d made : Disk} {p : Path} {text : String}
    (opened : d.openScratch = .ok made) (read : d.readText p = .ok text) :
    made.readText p = .ok text := by
  obtain ⟨_, _, _, -, -, same⟩ := createFolder_eq_ok opened
  have counted : d.countScratch.readText p = .ok text := read
  exact readText_mono (by rw [same]) (createFolder_adds opened).keeps (createFolder_files opened)
    counted

/-- The session without a scratch folder, if that can be deleted. -/
def Session.dropScratch (session : Session) (scratch : Path) : Session :=
  match session.disk.remove scratch with
  | .ok disk => { session with disk }
  | .error _ => session

namespace Session

variable (session : Session) (scratch : Path)

@[simp] theorem dropScratch_runs : (session.dropScratch scratch).runs = session.runs := by
  unfold dropScratch
  split <;> rfl

@[simp] theorem dropScratch_published :
    (session.dropScratch scratch).published = session.published := by
  unfold dropScratch
  split <;> rfl

end Session

namespace Action

variable {α : Type} {action : Path → Action α} {session after : Session}

theorem withScratch_run (action : Path → Action α) (session : Session) :
    (withScratch action).run session =
      (do
        change session.disk.scratchHome (·.createFolder session.disk.nextScratch)
        let outcome ← attempt (action session.disk.nextScratch)
        modify (·.dropScratch session.disk.nextScratch)
        ofExcept outcome : Action α).run { session with disk := session.disk.countScratch } := by
  have got : (get : Action Session).run session = .ok session session := rfl
  have counted : (setDisk session.disk.countScratch).run session =
      .ok () { session with disk := session.disk.countScratch } := rfl
  unfold withScratch
  rw [run_bind_of_ok got]
  exact run_bind_of_ok counted

theorem withScratch_of_unopened {fault : DiskFault}
    (unopened : session.disk.openScratch = .error fault) :
    (withScratch action).run session = .error (.io session.disk.scratchHome fault)
      { session with disk := session.disk.countScratch } := by
  rw [withScratch_run]
  exact run_bind_of_error (run_bind_of_error (look_of_error unopened))

theorem withScratch_of_opened {made : Disk} (opened : session.disk.openScratch = .ok made) :
    (withScratch action).run session =
      match (action session.disk.nextScratch).run { session with disk := made } with
      | .ok value ended => .ok value (ended.dropScratch session.disk.nextScratch)
      | .error failure ended => .error failure (ended.dropScratch session.disk.nextScratch) := by
  have changed : (change session.disk.scratchHome (·.createFolder session.disk.nextScratch)).run
      { session with disk := session.disk.countScratch } =
      .ok () { session with disk := made } := change_eq_ok.mpr ⟨made, opened, rfl⟩
  rw [withScratch_run, run_bind_of_ok changed, run_bind_of_ok (attempt_run _ _)]
  unfold outcome EStateM.left
  cases (action session.disk.nextScratch).run { session with disk := made } <;> rfl

theorem left_withScratch {made : Disk} (opened : session.disk.openScratch = .ok made) :
    (withScratch action).left session =
      ((action session.disk.nextScratch).left { session with disk := made }).dropScratch
        session.disk.nextScratch := by
  rw [EStateM.left, withScratch_of_opened opened, EStateM.left]
  cases (action session.disk.nextScratch).run { session with disk := made } <;> rfl

theorem withScratch_eq_ok {value : α} :
    (withScratch action).run session = .ok value after ↔
      ∃ made ended, session.disk.openScratch = .ok made ∧
        (action session.disk.nextScratch).run { session with disk := made } = .ok value ended ∧
        ended.dropScratch session.disk.nextScratch = after := by
  cases opened : session.disk.openScratch with
  | error fault => simp [withScratch_of_unopened opened]
  | ok made =>
      rw [withScratch_of_opened opened]
      constructor
      · intro run
        cases within : (action session.disk.nextScratch).run { session with disk := made } with
        | ok result ended =>
            rw [within] at run
            cases run
            exact ⟨made, ended, rfl, within, rfl⟩
        | error failure ended =>
            rw [within] at run
            cases run
      · rintro ⟨_, ended, ⟨⟩, within, rfl⟩
        rw [within]

end Action
end Cookbook
