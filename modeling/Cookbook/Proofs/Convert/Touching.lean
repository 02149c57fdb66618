import Cookbook.Proofs.Convert.Confinement
import Cookbook.Proofs.Recipe.Reloading

/-!
What of a session conversions touch: the disk, and what is remembered of the feed. They make no Gradle
runs.
-/

namespace Cookbook

open Action

namespace Copy

variable {plan : Plan}

theorem fillFile_onDisk (template : Template) (source target : Path) :
    Keeps OnDisk (fillFile plan template source target) :=
  keeps_bind (keeps_look _ _) fun _ => change_onDisk _ _

theorem recipeFile_onDisk (name : String) (source target : Path) :
    Keeps OnDisk (recipeFile plan name source target) := by
  unfold recipeFile
  split
  · exact keeps_pure ()
  · exact fillFile_onDisk _ _ _
  · exact change_onDisk _ _

theorem recipeFolder_onDisk (depth : Nat) (source target : Path) :
    Keeps OnDisk (recipeFolder plan depth source target) := by
  induction depth generalizing source target with
  | zero => exact keeps_throw _
  | succ depth ih =>
      rw [recipeFolder]
      refine keeps_bind (keeps_look _ _) ?_
      intro tree
      refine keeps_bind (createFolders_onDisk _) ?_
      intro _
      refine keeps_forM ?_
      rintro ⟨name, entry⟩ -
      dsimp only
      split
      · split
        · exact keeps_pure ()
        · exact ih _ _
      · exact recipeFile_onDisk _ _ _

theorem wholeFolder_onDisk (depth : Nat) (source target : Path) :
    Keeps OnDisk (wholeFolder depth source target) := by
  induction depth generalizing source target with
  | zero => exact keeps_throw _
  | succ depth ih =>
      rw [wholeFolder]
      refine keeps_bind (createFolders_onDisk _) ?_
      intro _
      refine keeps_bind (keeps_look _ _) ?_
      intro tree
      refine keeps_forM ?_
      rintro ⟨name, entry⟩ -
      dsimp only
      split
      · exact ih _ _
      · exact change_onDisk _ _

theorem depthLimit_onDisk : Keeps OnDisk depthLimit :=
  keeps_bind keeps_get fun _ => keeps_pure _

theorem recipe_onDisk (source destination : Path) : Keeps OnDisk (recipe plan source destination) :=
  keeps_bind depthLimit_onDisk fun _ => recipeFolder_onDisk _ _ _

theorem whole_onDisk (source destination : Path) : Keeps OnDisk (whole source destination) :=
  keeps_bind depthLimit_onDisk fun _ => wholeFolder_onDisk _ _ _

end Copy

theorem clearFolder_onDisk (folder : Path) : Keeps OnDisk (clearFolder folder) := by
  unfold clearFolder
  refine keeps_bind (keeps_look _ _) ?_
  intro tree
  refine keeps_forM ?_
  rintro ⟨name, entry⟩ -
  dsimp only
  unfold clearEntry
  split
  · exact change_onDisk _ _
  · exact keeps_pure ()

namespace Converter

variable {converter : Converter}

theorem addWrapper_onDisk (destination : Path) (plan : Plan) :
    Keeps OnDisk (converter.addWrapper destination plan) := by
  unfold addWrapper
  refine keeps_throwUnless (keeps_isFolder _) ?_
  refine keeps_bind (Copy.whole_onDisk _ _) ?_
  intro _
  refine keeps_throwUnless (keeps_isFile _) ?_
  refine keeps_bind (Copy.fillFile_onDisk _ _ _) ?_
  intro _
  refine keeps_bind (keeps_isFile _) ?_
  intro present
  split
  · exact change_onDisk _ _
  · exact keeps_pure ()

theorem clearDestination_onDisk (destination : Path) :
    Keeps OnDisk (converter.clearDestination destination) :=
  keeps_clearDestination fun _ => clearFolder_onDisk _

theorem carryOut_onDisk (source target : Path) (descriptor : Descriptor) :
    Keeps OnDisk (converter.carryOut source target descriptor) := by
  unfold carryOut
  refine keeps_bind (clearDestination_onDisk _) ?_
  intro _
  split
  · exact keeps_pure _
  · refine keeps_bind (keeps_ofExcept _) ?_
    intro plan
    refine keeps_bind (Copy.recipe_onDisk _ _) ?_
    intro _
    split
    · exact keeps_bind (addWrapper_onDisk _ _) fun _ => keeps_pure _
    · exact keeps_pure _

theorem convert_touches (converter : Converter) (source destination : Path) (session : Session) :
    ∃ loaded, Reads session loaded ∧
      OnDisk loaded ((converter.convert source destination).left session) := by
  have looked : (isFolder source).run session = .ok (session.disk.isFolder source) session := rfl
  rw [convert_eq, left_bind_of_ok looked]
  cases session.disk.isFolder source with
  | false => exact ⟨session, refl_of Reads session, refl_of OnDisk session⟩
  | true =>
      simp only [Bool.not_true, Bool.false_eq_true, if_false]
      have loads := Descriptor.load_reads source converter.context session
      cases load : (Descriptor.load source converter.context).run session with
      | error failure loaded =>
          rw [left_of_error load] at loads
          rw [left_bind_of_error load]
          exact ⟨loaded, loads, refl_of OnDisk loaded⟩
      | ok descriptor loaded =>
          rw [left_of_ok load] at loads
          rw [left_bind_of_ok load]
          exact ⟨loaded, loads, carryOut_onDisk source _ descriptor loaded⟩

end Converter
end Cookbook
