import Mathlib.Data.String.Basic
import Mathlib.Tactic.SplitIfs

/-!
# The order of texts

Texts compare by their characters. `Text.bytes_lt_iff` says that this is how their bytes compare, since
a character with a greater code point has a greater byte where the two first differ, whatever follows
them (`encode_append_lt`).
-/

namespace Cookbook.Text

/-- A text as files hold it. -/
def bytes (text : String) : List UInt8 := text.toByteArray.data.toList

theorem bytes_eq (text : String) : bytes text = text.toList.flatMap String.utf8EncodeChar := by
  rw [bytes, ← text.ofList_toList, String.toByteArray_ofList, List.utf8Encode]
  simp

theorem toNat_lt (c : Char) : c.val.toNat < 0x110000 := by
  have valid := c.valid
  simp only [UInt32.isValidChar, Nat.isValidChar] at valid
  omega

theorem encode_append_lt {c d : Char} (less : c < d) (front back : List UInt8) :
    String.utf8EncodeChar c ++ front < String.utf8EncodeChar d ++ back := by
  rw [Char.lt_def, UInt32.lt_iff_toNat_lt] at less
  have bound := toNat_lt d
  -- The digits to base 64 that the later bytes hold, each in terms of the next.
  have second (n : Nat) : n / 4096 = n / 64 / 64 := by omega
  have third (n : Nat) : n / 262144 = n / 64 / 64 / 64 := by omega
  unfold String.utf8EncodeChar
  dsimp only
  generalize c.val.toNat = m at less ⊢
  generalize d.val.toNat = n at less bound ⊢
  split_ifs <;>
    simp only [second, third, List.cons_append, List.nil_append, List.cons_lt_cons_iff,
      UInt8.lt_iff_toNat_lt, ← UInt8.toNat_inj, UInt8.toNat_ofNat']
  all_goals omega

theorem encode_ne_nil (c : Char) : String.utf8EncodeChar c ≠ [] := by
  unfold String.utf8EncodeChar
  dsimp only
  split_ifs <;> exact List.cons_ne_nil _ _

theorem flatMap_encode_lt {cs ds : List Char} (less : cs < ds) :
    cs.flatMap String.utf8EncodeChar < ds.flatMap String.utf8EncodeChar := by
  induction cs generalizing ds with
  | nil =>
      cases ds with
      | nil => exact absurd less (List.not_lt_nil _)
      | cons d ds =>
          obtain ⟨byte, more, encoded⟩ := List.exists_cons_of_ne_nil (encode_ne_nil d)
          rw [List.flatMap_cons, encoded]
          exact List.nil_lt_cons _ _
  | cons c cs ih =>
      cases ds with
      | nil => exact absurd less (List.not_lt_nil _)
      | cons d ds =>
          rw [List.flatMap_cons, List.flatMap_cons]
          obtain earlier | ⟨rfl, later⟩ := List.cons_lt_cons_iff.mp less
          · exact encode_append_lt earlier _ _
          · exact List.append_left_lt (ih later)

theorem bytes_lt {first second : String} (less : first < second) : bytes first < bytes second := by
  rw [bytes_eq, bytes_eq]
  exact flatMap_encode_lt (String.lt_iff_toList_lt.mp less)

theorem bytes_lt_iff {first second : String} : bytes first < bytes second ↔ first < second := by
  refine ⟨fun less => ?_, bytes_lt⟩
  obtain earlier | rfl | later := lt_trichotomy first second
  · exact earlier
  · exact absurd less (List.lt_irrefl _)
  · exact absurd less (List.lt_asymm (bytes_lt later))

theorem bytes_inj {first second : String} : bytes first = bytes second ↔ first = second := by
  refine ⟨fun same => ?_, congrArg bytes⟩
  obtain earlier | equal | later := lt_trichotomy first second
  · exact absurd (same ▸ bytes_lt earlier) (List.lt_irrefl _)
  · exact equal
  · exact absurd (same ▸ bytes_lt later) (List.lt_irrefl _)

end Cookbook.Text
