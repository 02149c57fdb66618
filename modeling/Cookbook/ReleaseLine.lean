import Cookbook.Text.Decimal
import Cookbook.Text.Lines

/-!
Release lines, the `major.minor` pairs that releases belong to. Only text of that form is read, so
that reading a line tells it from a full release.
-/

namespace Cookbook

structure ReleaseLine where
  major : UInt32
  minor : UInt32
deriving DecidableEq, Inhabited, Repr

namespace ReleaseLine

instance : Ord ReleaseLine where
  compare := compareLex (compareOn major) (compareOn minor)

instance : Std.TransOrd ReleaseLine :=
  inferInstanceAs (Std.TransCmp (compareLex (compareOn major) (compareOn minor)))

instance : Std.LawfulEqOrd ReleaseLine where
  compare_self := Std.ReflCmp.compare_self
  eq_of_compare {a b} same := by
    obtain ⟨majors, minors⟩ := compareLex_eq_eq.mp same
    cases a
    cases b
    rw [mk.injEq]
    exact ⟨Std.LawfulEqOrd.eq_of_compare majors, Std.LawfulEqOrd.eq_of_compare minors⟩

def parse? (text : String) : Option ReleaseLine :=
  match Text.fields '.' text.toList with
  | [major, minor] => do return ⟨← Text.word? major, ← Text.word? minor⟩
  | _ => none

def chars (line : ReleaseLine) : List Char :=
  Text.digits line.major ++ '.' :: Text.digits line.minor

def text (line : ReleaseLine) : String := String.ofList line.chars

/-- Whether a full release's text belongs to the line. -/
def covers (line : ReleaseLine) (release : String) : Bool :=
  (line.chars ++ ['.']).isPrefixOf release.toList

end ReleaseLine

end Cookbook
