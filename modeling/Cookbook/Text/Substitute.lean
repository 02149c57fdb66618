/-!
Finding a marker in a line and writing a value in its place. Occurrences are taken from the left and
do not overlap; the empty marker occurs before each character and at the end.
-/

namespace Cookbook.Text

def occurs (marker : List Char) : List Char → Bool
  | [] => marker.isEmpty
  | c :: cs => marker.isPrefixOf (c :: cs) || occurs marker cs

theorem occurs_iff_infix (marker cs : List Char) : occurs marker cs = true ↔ marker <:+: cs := by
  induction cs with
  | nil => simp [occurs]
  | cons c cs ih => simp [occurs, ih, List.infix_cons_iff]

/-- Passes over `skip` characters, which belong to an occurrence already replaced. -/
def substituteAfter (marker value : List Char) : Nat → List Char → List Char
  | _, [] => []
  | skip + 1, _ :: cs => substituteAfter marker value skip cs
  | 0, c :: cs =>
      if marker.isPrefixOf (c :: cs) then
        value ++ substituteAfter marker value (marker.length - 1) cs
      else c :: substituteAfter marker value 0 cs

theorem substituteAfter_eq_drop (marker value : List Char) (skip : Nat) (cs : List Char) :
    substituteAfter marker value skip cs = substituteAfter marker value 0 (cs.drop skip) := by
  induction cs generalizing skip with
  | nil => simp [substituteAfter]
  | cons c cs ih =>
      cases skip with
      | zero => rfl
      | succ skip => rw [substituteAfter, ih, List.drop_succ_cons]

def substituted (marker value cs : List Char) : List Char :=
  if marker = [] then value ++ cs.flatMap fun c => c :: value
  else substituteAfter marker value 0 cs

def mentions (line marker : String) : Bool := occurs marker.toList line.toList

def substitute (line marker value : String) : String :=
  String.ofList (substituted marker.toList value.toList line.toList)

end Cookbook.Text
