import Cookbook.Proofs.Text.Substitute
import Mathlib.Data.List.Find
import Mathlib.Data.List.Pairwise

/-!
Markers and the values that stand for them. A marker is a dollar sign before capitals, so two markers
never overlap; a value has no dollar sign and does not begin with a capital, so that it completes no
marker around it. Then substituting a marker leaves the others as they are:

* `occurs_substituteAfter_self`: the marker that is substituted is gone;
* `occurs_substituteAfter_other`: the other markers occur where they did;
* `substituteAllAfter_substituteAfter`: substituting one marker after another comes to the same as
  substituting all of them in one pass from the left.
-/

namespace Cookbook.Text

def isCapital (c : Char) : Bool := c.isUpper || c = '_'

def IsMarker (cs : List Char) : Prop := ∃ word, cs = '$' :: word ∧ ∀ c ∈ word, isCapital c = true

instance : DecidablePred IsMarker
  | [] => isFalse (by simp [IsMarker])
  | c :: word =>
      decidable_of_iff (c = '$' ∧ word.all isCapital = true) (by simp [IsMarker])

/-- That a value completes no marker around it. -/
structure Inert (value : List Char) : Prop where
  nonempty : value ≠ []
  start : ∀ c ∈ value.head?, isCapital c = false
  unsigned : '$' ∉ value

/-- That neither marker is the beginning of the other. -/
def Diverge (marker other : List Char) : Prop := ¬ marker <+: other ∧ ¬ other <+: marker

instance (marker other : List Char) : Decidable (Diverge marker other) :=
  inferInstanceAs (Decidable (_ ∧ _))

theorem Diverge.symm {marker other : List Char} (diverge : Diverge marker other) : Diverge other marker :=
  And.symm diverge

variable {marker other value word front cs : List Char} {skip : Nat}

theorem Inert.of_head {c : Char} (head : value.head? = some c) (other : isCapital c = false)
    (unsigned : '$' ∉ value) : Inert value where
  nonempty := by
    rintro rfl
    cases head
  start := by
    rw [head]
    rintro _ ⟨⟩
    exact other
  unsigned := unsigned

theorem Inert.append (inert : Inert front) (unsigned : '$' ∉ cs) : Inert (front ++ cs) := by
  obtain ⟨first, rest, rfl⟩ := List.exists_cons_of_ne_nil inert.nonempty
  refine ⟨List.cons_ne_nil _ _, inert.start, ?_⟩
  rw [List.mem_append, not_or]
  exact ⟨inert.unsigned, unsigned⟩

theorem unsigned_of_capitals (capitals : ∀ c ∈ word, isCapital c = true) : '$' ∉ word := by
  intro member
  have capital := capitals _ member
  revert capital
  decide

theorem isPrefixOf_cons_unsigned (marked : IsMarker marker) {c : Char} (plain : c ≠ '$') (cs : List Char) :
    marker.isPrefixOf (c :: cs) = false := by
  obtain ⟨word, rfl, -⟩ := marked
  rw [List.isPrefixOf_cons_cons, beq_false_of_ne (Ne.symm plain), Bool.false_and]

/-! ## Passing over stretches without a dollar sign -/

theorem occurs_append (marked : IsMarker marker) (unsigned : '$' ∉ front) (cs : List Char) :
    occurs marker (front ++ cs) = occurs marker cs := by
  induction front with
  | nil => rfl
  | cons c front ih =>
      rw [List.mem_cons, not_or] at unsigned
      rw [List.cons_append, occurs, isPrefixOf_cons_unsigned marked (Ne.symm unsigned.1), Bool.false_or,
        ih unsigned.2]

theorem substituteAfter_append (marked : IsMarker marker) (unsigned : '$' ∉ front) (cs : List Char) :
    substituteAfter marker value 0 (front ++ cs) = front ++ substituteAfter marker value 0 cs := by
  induction front with
  | nil => rfl
  | cons c front ih =>
      rw [List.mem_cons, not_or] at unsigned
      rw [List.cons_append, substituteAfter, isPrefixOf_cons_unsigned marked (Ne.symm unsigned.1),
        if_neg Bool.false_ne_true, ih unsigned.2, List.cons_append]

/-! ## What a value does to the markers around it -/

theorem prefix_substituteAfter_iff (marked : IsMarker marker) (inert : Inert value)
    (capitals : ∀ c ∈ word, isCapital c = true) :
    word <+: substituteAfter marker value 0 cs ↔ word <+: cs := by
  induction cs generalizing word with
  | nil => rfl
  | cons c cs ih =>
      cases word with
      | nil => simp
      | cons first word =>
          obtain ⟨capital, capitals⟩ := List.forall_mem_cons.mp capitals
          rw [substituteAfter]
          split
          · next found =>
              -- Neither the value nor the marker begins with a capital.
              obtain ⟨start, rest, rfl⟩ := List.exists_cons_of_ne_nil inert.nonempty
              have notStart : first ≠ start := by
                rintro rfl
                rw [inert.start first rfl] at capital
                cases capital
              obtain ⟨name, rfl, -⟩ := marked
              have notSign : first ≠ c := by
                rintro rfl
                obtain rfl : '$' = first := by simpa using (List.isPrefixOf_iff_prefix.mp found).head
                revert capital
                decide
              simp [List.cons_prefix_cons, notStart, notSign]
          · rw [List.cons_prefix_cons, List.cons_prefix_cons, ih capitals]

theorem isPrefixOf_cons_substituteAfter (marked : IsMarker marker) (inert : Inert value)
    (markedOther : IsMarker other) (c : Char) (cs : List Char) :
    other.isPrefixOf (c :: substituteAfter marker value 0 cs) = other.isPrefixOf (c :: cs) := by
  obtain ⟨word, rfl, capitals⟩ := markedOther
  rw [Bool.eq_iff_iff, List.isPrefixOf_iff_prefix, List.isPrefixOf_iff_prefix, List.cons_prefix_cons,
    List.cons_prefix_cons, prefix_substituteAfter_iff marked inert capitals]

theorem word_of_isPrefixOf {c : Char} (marked : IsMarker marker)
    (found : marker.isPrefixOf (c :: cs) = true) :
    ∃ word, marker = c :: word ∧ '$' ∉ word ∧ word <+: cs := by
  obtain ⟨word, rfl, capitals⟩ := marked
  rw [List.isPrefixOf_iff_prefix, List.cons_prefix_cons] at found
  obtain ⟨rfl, starts⟩ := found
  exact ⟨word, rfl, unsigned_of_capitals capitals, starts⟩

theorem drop_substituteAfter (marked : IsMarker marker) (unsigned : '$' ∉ word) (starts : word <+: cs) :
    (substituteAfter marker value 0 cs).drop word.length = substituteAfter marker value word.length cs := by
  obtain ⟨rest, rfl⟩ := starts
  rw [substituteAfter_append marked unsigned, List.drop_left, substituteAfter_eq_drop marker value _ (word ++ rest),
    List.drop_left]

theorem occurs_substituteAfter_self (marked : IsMarker marker) (inert : Inert value) (skip : Nat)
    (cs : List Char) : occurs marker (substituteAfter marker value skip cs) = false := by
  induction cs generalizing skip with
  | nil =>
      obtain ⟨word, rfl, -⟩ := marked
      rfl
  | cons c cs ih =>
      cases skip with
      | succ skip => exact ih skip
      | zero =>
          rw [substituteAfter]
          split
          · rw [occurs_append marked inert.unsigned]
            exact ih _
          · next absent =>
              rw [occurs, isPrefixOf_cons_substituteAfter marked inert marked, ih,
                Bool.eq_false_iff.mpr absent, Bool.or_false]

theorem occurs_substituteAfter_other (marked : IsMarker marker) (inert : Inert value)
    (markedOther : IsMarker other) (diverge : Diverge marker other) (skip : Nat) (cs : List Char) :
    occurs other (substituteAfter marker value skip cs) = occurs other (cs.drop skip) := by
  induction cs generalizing skip with
  | nil => simp [substituteAfter]
  | cons c cs ih =>
      cases skip with
      | succ skip => exact ih skip
      | zero =>
          rw [substituteAfter, List.drop_zero]
          split
          · next found =>
              have notHere : other.isPrefixOf (c :: cs) = false := by
                rw [Bool.eq_false_iff, ne_eq, List.isPrefixOf_iff_prefix]
                intro starts
                exact (List.prefix_or_prefix_of_prefix (List.isPrefixOf_iff_prefix.mp found) starts).elim
                  diverge.1 diverge.2
              obtain ⟨word, rfl, unsigned, rest, rfl⟩ := word_of_isPrefixOf marked found
              rw [occurs_append markedOther inert.unsigned, ih, occurs, notHere, Bool.false_or,
                occurs_append markedOther unsigned, List.length_cons, Nat.add_sub_cancel, List.drop_left]
          · rw [occurs, occurs, isPrefixOf_cons_substituteAfter marked inert markedOther, ih,
              List.drop_zero]

/-! ## All markers in one pass -/

/-- Substitutes several markers in one pass from the left, after passing over `skip` characters. Where
more than one marker could be meant, the first counts. -/
def substituteAllAfter (pairs : List (List Char × List Char)) : Nat → List Char → List Char
  | _, [] => []
  | skip + 1, _ :: cs => substituteAllAfter pairs skip cs
  | 0, c :: cs =>
      match pairs.find? fun pair => pair.1.isPrefixOf (c :: cs) with
      | some (marker, value) => value ++ substituteAllAfter pairs (marker.length - 1) cs
      | none => c :: substituteAllAfter pairs 0 cs

variable {pairs : List (List Char × List Char)}

theorem substituteAllAfter_eq_drop (pairs : List (List Char × List Char)) (skip : Nat) (cs : List Char) :
    substituteAllAfter pairs skip cs = substituteAllAfter pairs 0 (cs.drop skip) := by
  induction cs generalizing skip with
  | nil => simp [substituteAllAfter]
  | cons c cs ih =>
      cases skip with
      | zero => rfl
      | succ skip => rw [substituteAllAfter, ih, List.drop_succ_cons]

theorem substituteAllAfter_nil (cs : List Char) : substituteAllAfter [] 0 cs = cs := by
  induction cs with
  | nil => rfl
  | cons c cs ih => rw [substituteAllAfter, List.find?_nil, ih]

theorem substituteAllAfter_append (marked : ∀ pair ∈ pairs, IsMarker pair.1) (unsigned : '$' ∉ front)
    (cs : List Char) :
    substituteAllAfter pairs 0 (front ++ cs) = front ++ substituteAllAfter pairs 0 cs := by
  induction front with
  | nil => rfl
  | cons c front ih =>
      rw [List.mem_cons, not_or] at unsigned
      have none_ : pairs.find? (fun pair => pair.1.isPrefixOf (c :: (front ++ cs))) = none := by
        rw [List.find?_eq_none]
        intro pair member
        rw [isPrefixOf_cons_unsigned (marked pair member) (Ne.symm unsigned.1)]
        exact Bool.false_ne_true
      rw [List.cons_append, substituteAllAfter, none_, ih unsigned.2, List.cons_append]

/-- Substituting a marker before all others comes to the same as substituting it along with them. -/
theorem substituteAllAfter_substituteAfter (marked : IsMarker marker) (inert : Inert value)
    (markedAll : ∀ pair ∈ pairs, IsMarker pair.1) (skip : Nat) (cs : List Char) :
    substituteAllAfter pairs 0 (substituteAfter marker value skip cs) =
      substituteAllAfter ((marker, value) :: pairs) skip cs := by
  induction cs generalizing skip with
  | nil => simp [substituteAfter, substituteAllAfter]
  | cons c cs ih =>
      cases skip with
      | succ skip => exact ih skip
      | zero =>
          rw [substituteAfter]
          split
          · next found =>
              have first : ((marker, value) :: pairs).find? (fun pair => pair.1.isPrefixOf (c :: cs)) =
                  some (marker, value) := List.find?_cons_of_pos found
              rw [substituteAllAfter_append markedAll inert.unsigned, ih, substituteAllAfter, first]
          · next absent =>
              have later : ((marker, value) :: pairs).find? (fun pair => pair.1.isPrefixOf (c :: cs)) =
                  pairs.find? fun pair => pair.1.isPrefixOf (c :: cs) := List.find?_cons_of_neg absent
              have same : pairs.find? (fun pair =>
                    pair.1.isPrefixOf (c :: substituteAfter marker value 0 cs)) =
                  pairs.find? fun pair => pair.1.isPrefixOf (c :: cs) :=
                List.find?_congr fun pair member =>
                  isPrefixOf_cons_substituteAfter marked inert (markedAll pair member) c cs
              rw [substituteAllAfter, substituteAllAfter, same, later]
              split
              · next other filled found =>
                  -- The substituted text still has the rest of the other marker in front.
                  have markedOther := markedAll _ (List.mem_of_find?_eq_some found)
                  have here : other.isPrefixOf (c :: cs) = true := by simpa using List.find?_some found
                  obtain ⟨word, rfl, unsigned, starts⟩ := word_of_isPrefixOf markedOther here
                  rw [substituteAllAfter_eq_drop, List.length_cons, Nat.add_sub_cancel,
                    drop_substituteAfter marked unsigned starts, ih]
              · rw [ih]

theorem substituteAllAfter_of_absent (absent : occurs marker cs = false) (skip : Nat) :
    substituteAllAfter ((marker, value) :: pairs) skip cs = substituteAllAfter pairs skip cs := by
  induction cs generalizing skip with
  | nil => simp [substituteAllAfter]
  | cons c cs ih =>
      rw [occurs, Bool.or_eq_false_iff] at absent
      cases skip with
      | succ skip => exact ih absent.2 skip
      | zero =>
          have later : ((marker, value) :: pairs).find? (fun pair => pair.1.isPrefixOf (c :: cs)) =
              pairs.find? fun pair => pair.1.isPrefixOf (c :: cs) :=
            List.find?_cons_of_neg (Bool.eq_false_iff.mp absent.1)
          simp only [substituteAllAfter, later, ih absent.2]

theorem substituteAllAfter_perm {order : List (List Char × List Char)} (perm : pairs.Perm order)
    (diverge : pairs.Pairwise fun pair pair' => Diverge pair.1 pair'.1) (skip : Nat) (cs : List Char) :
    substituteAllAfter pairs skip cs = substituteAllAfter order skip cs := by
  have diverge_symm : Std.Symm fun pair pair' : List Char × List Char => Diverge pair.1 pair'.1 :=
    ⟨fun _ _ => Diverge.symm⟩
  induction cs generalizing skip with
  | nil => simp [substituteAllAfter]
  | cons c cs ih =>
      cases skip with
      | succ skip => exact ih skip
      | zero =>
          have same : pairs.find? (fun pair => pair.1.isPrefixOf (c :: cs)) =
              order.find? fun pair => pair.1.isPrefixOf (c :: cs) := by
            refine List.find?_eq_find?_of_perm perm ?_
            rintro pair ⟨member, starts⟩ pair' ⟨member', starts'⟩
            by_contra different
            have both := diverge.forall member member' different
            rw [List.isPrefixOf_iff_prefix] at starts starts'
            exact (List.prefix_or_prefix_of_prefix starts starts').elim both.1 both.2
          simp only [substituteAllAfter, same, ih]

/-! ## Lines -/

/-- The line with each of the markers replaced by its value, all in one pass from the left. -/
def substituteAll (line : String) (pairs : List (String × String)) : String :=
  String.ofList (substituteAllAfter (pairs.map fun pair => (pair.1.toList, pair.2.toList)) 0 line.toList)

section Lines

variable {line marker value other : String} {pairs order : List (String × String)}

theorem toList_substitute (marked : IsMarker marker.toList) :
    (substitute line marker value).toList = substituteAfter marker.toList value.toList 0 line.toList := by
  obtain ⟨word, signed, -⟩ := marked
  rw [substitute, String.toList_ofList, substituted, if_neg (by simp [signed])]

theorem mentions_substitute_self (marked : IsMarker marker.toList) (inert : Inert value.toList) :
    mentions (substitute line marker value) marker = false := by
  rw [mentions, toList_substitute marked, occurs_substituteAfter_self marked inert]

theorem mentions_substitute_other (marked : IsMarker marker.toList) (inert : Inert value.toList)
    (markedOther : IsMarker other.toList) (diverge : Diverge marker.toList other.toList) :
    mentions (substitute line marker value) other = mentions line other := by
  rw [mentions, toList_substitute marked, occurs_substituteAfter_other marked inert markedOther diverge]
  rfl

theorem mentions_of_unsigned (marked : IsMarker marker.toList) (unsigned : '$' ∉ line.toList) :
    mentions line marker = false := by
  obtain ⟨word, signed, -⟩ := marked
  rw [mentions_eq_false, signed]
  exact fun inside => unsigned (inside.subset List.mem_cons_self)

theorem substituteAll_nil (line : String) : substituteAll line [] = line := by
  rw [substituteAll, List.map_nil, substituteAllAfter_nil, String.ofList_toList]

theorem substituteAll_substitute (marked : IsMarker marker.toList) (inert : Inert value.toList)
    (markedAll : ∀ pair ∈ pairs, IsMarker pair.1.toList) :
    substituteAll (substitute line marker value) pairs = substituteAll line ((marker, value) :: pairs) := by
  rw [substituteAll, toList_substitute marked,
    substituteAllAfter_substituteAfter marked inert (List.forall_mem_map.mpr markedAll)]
  rfl

theorem substituteAll_of_unmentioned (unmentioned : mentions line marker = false) (value : String)
    (pairs : List (String × String)) :
    substituteAll line ((marker, value) :: pairs) = substituteAll line pairs :=
  congrArg String.ofList (substituteAllAfter_of_absent unmentioned 0)

theorem substituteAll_perm (perm : pairs.Perm order)
    (diverge : pairs.Pairwise fun pair pair' => Diverge pair.1.toList pair'.1.toList) (line : String) :
    substituteAll line pairs = substituteAll line order :=
  congrArg String.ofList (substituteAllAfter_perm (perm.map _) (List.pairwise_map.mpr diverge) 0 _)

end Lines

end Cookbook.Text
