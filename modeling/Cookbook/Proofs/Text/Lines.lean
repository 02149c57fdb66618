import Cookbook.Text.Lines

/-!
Fields and lines of texts that are put together: `fields_append` for two stretches around a separator,
and `lines_unlines` for lines that are written and read again, which may break them up further.
-/

namespace Cookbook
namespace Text

variable {separator : Char} {field : List Char}

theorem fields_self (separator : Char) (cs : List Char) :
    fields separator (separator :: cs) = [] :: fields separator cs := by
  simp [fields]

theorem fields_of_ne {c : Char} (other : c ≠ separator) (cs : List Char) :
    ∃ first rest, fields separator cs = first :: rest ∧
      fields separator (c :: cs) = (c :: first) :: rest := by
  cases split : fields separator cs with
  | nil => exact absurd split (fields_ne_nil separator cs)
  | cons first rest => exact ⟨first, rest, rfl, by simp [fields, other, split]⟩

theorem fields_append (separator : Char) (front back : List Char) :
    fields separator (front ++ separator :: back) =
      fields separator front ++ fields separator back := by
  induction front with
  | nil => exact fields_self separator back
  | cons c front ih =>
      by_cases same : c = separator
      · rw [same, List.cons_append, fields_self, ih, fields_self, List.cons_append]
      · obtain ⟨first, rest, split, longer⟩ := fields_of_ne same front
        obtain ⟨first', rest', split', longer'⟩ := fields_of_ne same (front ++ separator :: back)
        rw [ih, split, List.cons_append] at split'
        obtain ⟨rfl, rfl⟩ := List.cons.inj split'
        rw [List.cons_append, longer', longer, List.cons_append]

theorem fields_replicate (separator : Char) (count : Nat) (rest : List Char) :
    fields separator (List.replicate count separator ++ rest) =
      List.replicate count [] ++ fields separator rest := by
  induction count with
  | zero => rfl
  | succ count ih => simp [List.replicate_succ, fields_self, ih]

theorem fields_of_notMem {cs : List Char} (absent : separator ∉ cs) :
    fields separator cs = [cs] := by
  induction cs with
  | nil => rfl
  | cons c cs ih =>
      rw [List.mem_cons, not_or] at absent
      obtain ⟨first, rest, split, longer⟩ := fields_of_ne (Ne.symm absent.1) cs
      rw [ih absent.2] at split
      obtain ⟨rfl, rfl⟩ := List.cons.inj split
      exact longer

theorem all_ne_of_notMem {c : Char} {cs : List Char} (absent : c ∉ cs) :
    cs.all (· ≠ c) = true := by
  rw [List.all_eq_true]
  rintro d member
  rw [decide_eq_true_eq]
  rintro rfl
  exact absent member

theorem append_cons_inj {c : Char} {front front' back back' : List Char} (absent : c ∉ front)
    (absent' : c ∉ front') (same : front ++ c :: back = front' ++ c :: back') :
    front = front' ∧ back = back' := by
  have firsts := congrArg (List.takeWhile (· ≠ c)) same
  rw [List.takeWhile_append_of_pos (List.all_eq_true.mp (all_ne_of_notMem absent)),
    List.takeWhile_append_of_pos (List.all_eq_true.mp (all_ne_of_notMem absent')),
    List.takeWhile_cons_of_neg (by simp), List.takeWhile_cons_of_neg (by simp), List.append_nil,
    List.append_nil] at firsts
  subst firsts
  exact ⟨rfl, (List.cons.inj (List.append_cancel_left same)).2⟩

theorem eq_append_of_fields {cs next : List Char} {rest : List (List Char)}
    (split : fields separator cs = field :: next :: rest) :
    ∃ back, cs = field ++ separator :: back ∧ fields separator back = next :: rest := by
  induction cs generalizing field with
  | nil => cases split
  | cons c cs ih =>
      by_cases same : c = separator
      · subst same
        rw [fields_self, List.cons.injEq] at split
        obtain ⟨rfl, split⟩ := split
        exact ⟨cs, rfl, split⟩
      · obtain ⟨first, others, apart, longer⟩ := fields_of_ne same cs
        rw [longer, List.cons.injEq] at split
        obtain ⟨rfl, rfl⟩ := split
        obtain ⟨back, rfl, split⟩ := ih apart
        exact ⟨back, rfl, split⟩

theorem eq_of_fields {cs : List Char} (split : fields separator cs = [field]) : cs = field := by
  induction cs generalizing field with
  | nil =>
      cases split
      rfl
  | cons c cs ih =>
      by_cases same : c = separator
      · rw [same, fields_self, List.cons.injEq] at split
        exact absurd split.2 (fields_ne_nil separator cs)
      · obtain ⟨first, others, apart, longer⟩ := fields_of_ne same cs
        rw [longer, List.cons.injEq] at split
        obtain ⟨rfl, rfl⟩ := split
        rw [ih apart]

theorem notMem_of_mem_fields {cs : List Char} (member : field ∈ fields separator cs) :
    separator ∉ field := by
  induction cs generalizing field with
  | nil => simp_all [fields]
  | cons c cs ih =>
      by_cases same : c = separator
      · rw [same, fields_self, List.mem_cons] at member
        cases member with
        | inl empty => simp [empty]
        | inr member => exact ih member
      · obtain ⟨first, rest, split, longer⟩ := fields_of_ne same cs
        rw [split] at ih
        rw [longer, List.mem_cons] at member
        cases member with
        | inl equal =>
            have absent : separator ∉ first := ih List.mem_cons_self
            simp [equal, absent, Ne.symm same]
        | inr member => exact ih (List.mem_cons_of_mem _ member)

theorem fields_append_of_notMem (absent : separator ∉ tail) (cs : List Char) :
    ∃ front last, fields separator cs = front ++ [last] ∧
      fields separator (cs ++ tail) = front ++ [last ++ tail] := by
  induction cs with
  | nil => exact ⟨[], [], rfl, fields_of_notMem absent⟩
  | cons c cs ih =>
      obtain ⟨front, last, split, longer⟩ := ih
      by_cases same : c = separator
      · subst same
        refine ⟨[] :: front, last, ?_, ?_⟩
        · rw [fields_self, split, List.cons_append]
        · rw [List.cons_append, fields_self, longer, List.cons_append]
      · obtain ⟨first, rest, apart, with_⟩ := fields_of_ne same cs
        obtain ⟨first', rest', apart', with'⟩ := fields_of_ne same (cs ++ tail)
        rw [List.cons_append, with_, with']
        rw [split] at apart
        rw [longer] at apart'
        cases front with
        | nil =>
            cases apart
            cases apart'
            exact ⟨[], c :: last, rfl, rfl⟩
        | cons field front =>
            cases apart
            cases apart'
            exact ⟨(c :: first) :: front, last, rfl, rfl⟩

theorem fields_infix (separator : Char) (cs : List Char) :
    ∃ first rest, fields separator cs = first :: rest ∧ first <+: cs ∧
      ∀ field ∈ rest, field <:+: cs := by
  induction cs with
  | nil => exact ⟨[], [], rfl, List.prefix_rfl, by simp⟩
  | cons c cs ih =>
      obtain ⟨first, rest, split, starts, inside⟩ := ih
      by_cases same : c = separator
      · refine ⟨[], first :: rest, by rw [same, fields_self, split], List.nil_prefix, ?_⟩
        intro field member
        apply List.infix_cons
        cases List.mem_cons.mp member with
        | inl equal => exact equal ▸ starts.isInfix
        | inr member => exact inside field member
      · obtain ⟨first', rest', split', longer⟩ := fields_of_ne same cs
        rw [split] at split'
        obtain ⟨rfl, rfl⟩ := List.cons.inj split'
        exact ⟨c :: first, rest, longer, List.cons_prefix_cons.mpr ⟨rfl, starts⟩,
          fun field member => List.infix_cons (inside field member)⟩

theorem infix_of_mem_fields {cs : List Char} (member : field ∈ fields separator cs) :
    field <:+: cs := by
  obtain ⟨first, rest, split, starts, inside⟩ := fields_infix separator cs
  rw [split, List.mem_cons] at member
  cases member with
  | inl equal => exact equal ▸ starts.isInfix
  | inr member => exact inside field member

/-! ## Lines that are written and read again -/

/-- What a written line is read as: itself, unless line feeds or a carriage return break it up. -/
def broken (line : String) : List String :=
  (fields '\n' line.toList).map fun piece => String.ofList (dropReturn piece)

theorem toList_unlines_cons (line : String) (lines : List String) :
    (unlines (line :: lines)).toList = line.toList ++ '\n' :: (unlines lines).toList := by
  simp [unlines, String.join_cons]

theorem fields_unlines (lines : List String) :
    fields '\n' (unlines lines).toList =
      lines.flatMap (fun line => fields '\n' line.toList) ++ [[]] := by
  induction lines with
  | nil => simp [unlines, fields]
  | cons line lines ih =>
      rw [toList_unlines_cons, fields_append, ih, List.flatMap_cons, List.append_assoc]

theorem lines_unlines (written : List String) :
    lines (unlines written) = written.flatMap broken := by
  simp only [lines, fields_unlines, List.dropLast_concat, List.getLast?_concat, List.map_flatMap]
  rfl

theorem lines_append (front back : String) :
    lines (front ++ "\n" ++ back) = broken front ++ lines back := by
  have nonempty := fields_ne_nil '\n' back.toList
  have last := List.getLast?_eq_some_getLast nonempty
  have chars : (front ++ "\n" ++ back).toList = front.toList ++ '\n' :: back.toList := by simp
  simp only [lines, broken, chars, fields_append, List.dropLast_append_of_ne_nil nonempty,
    List.map_append, List.getLast?_append, last, Option.some_or]
  split
  · rfl
  · rfl
  · rw [List.append_assoc]

theorem notMem_of_mem_lines {text line : String} (member : line ∈ lines text) :
    '\n' ∉ line.toList := by
  have absent {piece : List Char} (member : piece ∈ fields '\n' text.toList) : '\n' ∉ piece :=
    notMem_of_mem_fields member
  have ended {line : String} (member : line ∈ (fields '\n' text.toList).dropLast.map fun line =>
      String.ofList (dropReturn line)) : '\n' ∉ line.toList := by
    obtain ⟨piece, inside, rfl⟩ := List.mem_map.mp member
    have absent := absent (List.dropLast_subset _ inside)
    rw [String.toList_ofList, dropReturn]
    split
    · exact fun member => absent (List.dropLast_subset _ member)
    · exact absent
  unfold lines at member
  dsimp only at member
  split at member
  · exact ended member
  · exact ended member
  · next open_ _ last =>
      rw [List.mem_append, List.mem_singleton] at member
      cases member with
      | inl member => exact ended member
      | inr equal =>
          rw [equal, String.toList_ofList]
          exact absent (List.mem_of_getLast? last)

theorem broken_eq_self {line : String} (unbroken : '\n' ∉ line.toList)
    (unreturned : line.toList.getLast? ≠ some '\r') : broken line = [line] := by
  simp [broken, fields_of_notMem unbroken, dropReturn, unreturned]

end Text
end Cookbook
