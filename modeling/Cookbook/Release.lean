import Cookbook.ReleaseLine

/-!
Releases of the Android Gradle Plugin. A preview is a numbered alpha, beta or release candidate, or
the development build of its branch, which follows all of these and comes before the final release.
-/

namespace Cookbook

inductive Stage
  | alpha
  | beta
  | rc
  | dev
  | final
deriving DecidableEq, Repr

namespace Stage

def rank : Stage → Nat
  | alpha => 0
  | beta => 1
  | rc => 2
  | dev => 3
  | final => 4

instance : Ord Stage where
  compare := compareOn rank

instance : Std.TransOrd Stage := inferInstanceAs (Std.TransCmp (compareOn rank))

instance : Std.LawfulEqOrd Stage where
  compare_self := Std.ReflCmp.compare_self
  eq_of_compare {a b} same := by
    have ranks : a.rank = b.rank := Std.LawfulEqOrd.eq_of_compare same
    cases a <;> cases b <;> trivial

/-- The word for the stage in a release's text. -/
def tag? : Stage → Option String
  | alpha => some "alpha"
  | beta => some "beta"
  | rc => some "rc"
  | dev => some "dev"
  | final => none

def ofTag? (tag : List Char) : Option Stage :=
  [alpha, beta, rc, dev].find? fun stage => stage.tag?.any (·.toList = tag)

end Stage

structure Release where
  major : UInt32
  minor : UInt32
  micro : UInt32
  stage : Stage := .final
  /-- Which preview of its stage it is; zero for final releases and development builds. -/
  number : UInt32 := 0
deriving DecidableEq, Repr

namespace Release

instance : Ord Release where
  compare := compareLex (compareOn major) <| compareLex (compareOn minor) <|
    compareLex (compareOn micro) <| compareLex (compareOn stage) (compareOn number)

instance : Std.TransOrd Release :=
  inferInstanceAs (Std.TransCmp (compareLex (compareOn major) <| compareLex (compareOn minor) <|
    compareLex (compareOn micro) <| compareLex (compareOn stage) (compareOn number)))

instance : Std.LawfulEqOrd Release where
  compare_self := Std.ReflCmp.compare_self
  eq_of_compare {a b} same := by
    obtain ⟨majors, same⟩ := compareLex_eq_eq.mp same
    obtain ⟨minors, same⟩ := compareLex_eq_eq.mp same
    obtain ⟨micros, same⟩ := compareLex_eq_eq.mp same
    obtain ⟨stages, numbers⟩ := compareLex_eq_eq.mp same
    cases a
    cases b
    rw [mk.injEq]
    exact ⟨Std.LawfulEqOrd.eq_of_compare majors, Std.LawfulEqOrd.eq_of_compare minors,
      Std.LawfulEqOrd.eq_of_compare micros, Std.LawfulEqOrd.eq_of_compare stages,
      Std.LawfulEqOrd.eq_of_compare numbers⟩

def line (release : Release) : ReleaseLine := ⟨release.major, release.minor⟩

def splitDash (cs : List Char) : List Char × Option (List Char) :=
  match cs.dropWhile (· ≠ '-') with
  | [] => (cs, none)
  | _ :: suffix => (cs.takeWhile (· ≠ '-'), some suffix)

/-- The stage and number after the dash: every stage but `dev` needs a number. -/
def preview? (cs : List Char) : Option (Stage × UInt32) := do
  let stage ← Stage.ofTag? (cs.takeWhile Char.isLower)
  match stage, cs.dropWhile Char.isLower with
  | .dev, [] => some (.dev, 0)
  | .dev, _ => none
  | stage, number => return (stage, ← Text.word? number)

def parseChars? (cs : List Char) : Option Release := do
  let (core, suffix) := splitDash cs
  let (stage, number) ← match suffix with
    | none => some (.final, 0)
    | some suffix => preview? suffix
  match Text.fields '.' core with
  | [major, minor, micro] =>
      return ⟨← Text.word? major, ← Text.word? minor, ← Text.word? micro, stage, number⟩
  | _ => none

def parse? (text : String) : Option Release := parseChars? text.toList

/-- Whether previews of the release are numbered with at least two digits, as they are from 3.1.0 on,
its betas and the later releases of its line excepted. -/
def padsNumber (release : Release) : Bool :=
  3 < release.major || (release.major = 3 && 1 < release.minor) ||
    (release.major = 3 && release.minor = 1 && release.micro = 0 && release.stage ≠ .beta)

def numberChars (release : Release) : List Char :=
  if release.padsNumber && release.number < 10 then '0' :: Text.digits release.number
  else Text.digits release.number

def chars (release : Release) : List Char :=
  let core := Text.digits release.major ++ '.' :: Text.digits release.minor ++
    '.' :: Text.digits release.micro
  match release.stage with
  | .final => core
  | .dev => core ++ '-' :: "dev".toList
  | stage => core ++ '-' :: (stage.tag?.getD "").toList ++ release.numberChars

def text (release : Release) : String := String.ofList release.chars

end Release

end Cookbook
