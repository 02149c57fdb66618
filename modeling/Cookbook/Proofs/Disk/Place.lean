import Cookbook.Disk.Basic
import Cookbook.Proofs.Text.Lines
import Cookbook.Proofs.Session
import Mathlib.Tactic.SplitIfs

/-!
Where paths lead. The place of a path is read off its text, whether or not anything is there, and every
path that can be located is found at its place. Joining paths follows the second from the place of the
first.
-/

namespace Cookbook

/-- That a name can be the name of an entry: it is one piece of a path, and no step of its own. -/
structure ProperName (name : String) : Prop where
  nonempty : name ≠ ""
  notHere : name ≠ "."
  notUp : name ≠ ".."
  single : '/' ∉ name.toList

instance (name : String) : Decidable (ProperName name) :=
  decidable_of_iff (name ≠ "" ∧ name ≠ "." ∧ name ≠ ".." ∧ '/' ∉ name.toList)
    ⟨fun ⟨nonempty, notHere, notUp, single⟩ => ⟨nonempty, notHere, notUp, single⟩,
      fun proper => ⟨proper.nonempty, proper.notHere, proper.notUp, proper.single⟩⟩

def follow : Location → List String → Location
  | place, [] => place
  | place, step :: steps =>
      if step = "." then follow place steps
      else if step = ".." then follow place.dropLast steps
      else follow (place ++ [step]) steps

theorem follow_append (place : Location) (front back : List String) :
    follow place (front ++ back) = follow (follow place front) back := by
  induction front generalizing place with
  | nil => rfl
  | cons step front ih =>
      simp only [List.cons_append, follow, ih]
      split_ifs <;> rfl

theorem follow_proper {name : String} (proper : ProperName name) (place : Location) :
    follow place [name] = place ++ [name] := by
  simp [follow, proper.notHere, proper.notUp]

theorem follow_names {steps : List String} (proper : ∀ step ∈ steps, ProperName step)
    (place : Location) : follow place steps = place ++ steps := by
  induction steps generalizing place with
  | nil => simp [follow]
  | cons step steps ih =>
      obtain ⟨first, rest⟩ := List.forall_mem_cons.mp proper
      rw [follow, if_neg first.notHere, if_neg first.notUp, ih rest, List.append_assoc,
        List.singleton_append]

theorem follow_all_proper {place : Location} {steps : List String}
    (start : ∀ name ∈ place, ProperName name)
    (pieces : ∀ step ∈ steps, step ≠ "" ∧ '/' ∉ step.toList) :
    ∀ name ∈ follow place steps, ProperName name := by
  induction steps generalizing place with
  | nil => exact start
  | cons step steps ih =>
      have rest := fun name member => pieces name (List.mem_cons_of_mem step member)
      obtain ⟨nonempty, single⟩ := pieces step List.mem_cons_self
      rw [follow]
      split_ifs with here up
      · exact ih start rest
      · exact ih (fun name member => start name (List.dropLast_subset _ member)) rest
      · apply ih _ rest
        intro name member
        rw [List.mem_append, List.mem_singleton] at member
        cases member with
        | inl member => exact start name member
        | inr equal => exact equal ▸ ⟨nonempty, here, up, single⟩

namespace Path

theorem isAbsolute_iff (p : Path) : p.isAbsolute = true ↔ p.text.toList.head? = some '/' := by
  simp [isAbsolute, String.front?_eq]

theorem endsInSlash_iff (p : Path) : p.endsInSlash = true ↔ p.text.toList.getLast? = some '/' := by
  simp [endsInSlash, String.back?_eq]

def parts (p : Path) : List String := p.pieces.filter (· ≠ "")

theorem parts_pieces {p : Path} {part : String} (member : part ∈ p.parts) :
    part ≠ "" ∧ '/' ∉ part.toList := by
  rw [parts, List.mem_filter, pieces, List.mem_map] at member
  obtain ⟨⟨piece, inside, rfl⟩, nonempty⟩ := member
  rw [String.toList_ofList]
  exact ⟨by simpa using nonempty, Text.notMem_of_mem_fields inside⟩

theorem parts_slash (front back : List Char) :
    parts ⟨String.ofList (front ++ '/' :: back)⟩ =
      parts ⟨String.ofList front⟩ ++ parts ⟨String.ofList back⟩ := by
  simp [parts, pieces, Text.fields_append]

@[simp] theorem parts_empty : parts ⟨""⟩ = [] := rfl

@[simp] theorem isAbsolute_empty : isAbsolute ⟨""⟩ = false := rfl

theorem parts_name {name : String} (single : '/' ∉ name.toList) :
    parts ⟨name⟩ = if name = "" then [] else [name] := by
  by_cases empty : name = ""
  · simp [empty]
  · simp [parts, pieces, Text.fields_of_notMem single, empty]

theorem parts_single {name : String} (proper : ProperName name) : parts ⟨name⟩ = [name] := by
  rw [parts_name proper.single, if_neg proper.nonempty]

theorem follow_steps (place : Location) (p : Path) : follow place p.steps = follow place p.parts := by
  rw [steps, follow_append]
  split <;> simp [follow, parts]

theorem isRelative_name {name : String} (single : '/' ∉ name.toList) :
    isAbsolute ⟨name⟩ = false := by
  rw [Bool.eq_false_iff]
  intro absolute
  rw [isAbsolute_iff] at absolute
  exact single (List.mem_of_head? absolute)

theorem isRelative_of_proper {name : String} (proper : ProperName name) :
    isAbsolute ⟨name⟩ = false :=
  isRelative_name proper.single

theorem text_eq_of_endsInSlash {p : Path} (ends : p.endsInSlash = true) :
    ∃ front, p = ⟨String.ofList (front ++ ['/'])⟩ := by
  rw [endsInSlash_iff, List.getLast?_eq_some_iff] at ends
  obtain ⟨front, text⟩ := ends
  exact ⟨front, by rw [← text, String.ofList_toList]⟩

theorem text_withoutLastSlash (p : Path) :
    ∃ slashes, (∀ c ∈ slashes, c = '/') ∧ (p.withoutLastSlash = p ∨ p.withoutLastSlash.text ≠ "") ∧
      p = ⟨String.ofList (p.withoutLastSlash.text.toList ++ slashes)⟩ := by
  unfold withoutLastSlash
  split
  · exact ⟨[], by simp, .inl rfl, by simp⟩
  · next nonempty =>
      refine ⟨(p.text.toList.reverse.takeWhile (· = '/')).reverse, ?_, .inr ?_, ?_⟩
      · intro c member
        simpa using List.all_eq_true.mp List.all_takeWhile c (List.mem_reverse.mp member)
      · simpa using nonempty
      · rw [String.toList_ofList, ← List.reverse_append, List.takeWhile_append_dropWhile,
          List.reverse_reverse, String.ofList_toList]

theorem parts_slashes {slashes : List Char} (all : ∀ c ∈ slashes, c = '/') (front : List Char) :
    parts ⟨String.ofList (front ++ slashes)⟩ = parts ⟨String.ofList front⟩ := by
  induction slashes generalizing front with
  | nil => rw [List.append_nil]
  | cons c slashes ih =>
      obtain ⟨rfl, rest⟩ := List.forall_mem_cons.mp all
      rw [parts_slash, ← List.nil_append slashes, ih rest, String.ofList_nil, parts_empty,
        List.append_nil]

theorem parts_withoutLastSlash (p : Path) : p.withoutLastSlash.parts = p.parts := by
  obtain ⟨slashes, all, -, text⟩ := text_withoutLastSlash p
  have parts := congrArg parts text
  rw [parts_slashes all, String.ofList_toList] at parts
  exact parts.symm

theorem isAbsolute_withoutLastSlash (p : Path) : p.withoutLastSlash.isAbsolute = p.isAbsolute := by
  obtain ⟨slashes, -, same | nonempty, text⟩ := text_withoutLastSlash p
  · rw [same]
  · have some_ : p.withoutLastSlash.text.toList ≠ [] := by simpa using nonempty
    have absolute := congrArg isAbsolute text
    rw [Bool.eq_iff_iff, isAbsolute_iff, isAbsolute_iff, String.toList_ofList, List.head?_append,
      List.head?_eq_some_head some_, Option.some_or] at absolute
    rw [Bool.eq_iff_iff, isAbsolute_iff, isAbsolute_iff, absolute, List.head?_eq_some_head some_]

theorem withoutLastSlash_of_noSlash {p : Path} (ends : p.endsInSlash = false) :
    p.withoutLastSlash = p := by
  obtain ⟨slashes, all, same | -, text⟩ := p.text_withoutLastSlash
  · exact same
  · obtain rfl | ⟨front, last, rfl⟩ := slashes.eq_nil_or_concat
    · simpa using text.symm
    · have slash := all last (by simp)
      have endsInSlash : p.endsInSlash = true := by
        rw [endsInSlash_iff, text]
        simp [slash]
      rw [ends] at endsInSlash
      cases endsInSlash

section Join

variable {p q : Path}

theorem isAbsolute_join (relative : q.isAbsolute = false) :
    (p.join q).isAbsolute = p.isAbsolute := by
  have append (text : String) (nonempty : p.text ≠ "") :
      isAbsolute ⟨p.text ++ text⟩ = p.isAbsolute := by
    have some_ : p.text.toList ≠ [] := by simpa using nonempty
    rw [Bool.eq_iff_iff, isAbsolute_iff, isAbsolute_iff, String.toList_append, List.head?_append,
      List.head?_eq_some_head some_, Option.some_or]
  unfold join
  split_ifs with absolute empty
  · simp [relative] at absolute
  · rw [relative, isAbsolute, empty]
    rfl
  · exact append _ empty
  · rw [String.append_assoc]
    exact append _ empty

theorem parts_join (relative : q.isAbsolute = false) : (p.join q).parts = p.parts ++ q.parts := by
  unfold join
  split_ifs with absolute empty ends
  · simp [relative] at absolute
  · simp [parts, pieces, empty, Text.fields]
  · obtain ⟨front, rfl⟩ := text_eq_of_endsInSlash ends
    have joined : String.ofList (front ++ ['/']) ++ q.text =
        String.ofList (front ++ '/' :: q.text.toList) := by
      rw [← String.toList_inj]
      simp
    rw [joined, parts_slash, parts_slash]
    simp [parts, pieces, Text.fields]
  · have joined : p.text ++ "/" ++ q.text =
        String.ofList (p.text.toList ++ '/' :: q.text.toList) := by
      rw [← String.toList_inj]
      simp
    rw [joined, parts_slash]
    simp

theorem text_join (relative : q.isAbsolute = false) : ∃ rest, (p.join q).text = p.text ++ rest := by
  unfold join
  split_ifs with absolute empty
  · simp [relative] at absolute
  · exact ⟨q.text, by simp [empty]⟩
  · exact ⟨q.text, rfl⟩
  · exact ⟨"/" ++ q.text, String.append_assoc ..⟩

end Join

theorem text_joinName_ne_empty (p : Path) {name : String} (nonempty : name ≠ "")
    (single : '/' ∉ name.toList) : (p.joinName name).text ≠ "" := by
  unfold joinName join
  rw [if_neg (by simp [isRelative_name single])]
  split_ifs <;> simp [nonempty]

theorem text_joinName_of_text {p : Path} {name : String} (nonempty : p.text ≠ "")
    (single : '/' ∉ name.toList) : (p.joinName name).text ≠ "" := by
  obtain ⟨rest, longer⟩ : ∃ rest, (p.joinName name).text = p.text ++ rest :=
    text_join (isRelative_name single)
  rw [longer]
  exact fun empty => nonempty (String.append_eq_empty_iff.mp empty).1

theorem endsInSlash_joinName {p : Path} {name : String} (nonempty : name ≠ "")
    (single : '/' ∉ name.toList) : (p.joinName name).endsInSlash = false := by
  obtain ⟨front, final, characters⟩ : ∃ front final, name.toList = front ++ [final] := by
    have some_ : name.toList ≠ [] := by simpa using nonempty
    exact ⟨_, _, (List.dropLast_concat_getLast some_).symm⟩
  have last : (p.joinName name).text.toList.getLast? = some final := by
    unfold joinName join
    split_ifs <;> simp [characters, List.getLast?_cons]
  rw [Bool.eq_false_iff]
  intro ends
  rw [endsInSlash_iff, last] at ends
  cases ends
  simp [characters] at single

theorem joinName_join {p q : Path} {name : String} (proper : ProperName name)
    (relative : q.isAbsolute = false) :
    (p.joinName name).join q = p.join ⟨name ++ "/" ++ q.text⟩ := by
  have nonempty := text_joinName_ne_empty p proper.nonempty proper.single
  have ends := endsInSlash_joinName (p := p) proper.nonempty proper.single
  have alone := isRelative_of_proper proper
  have further : isAbsolute ⟨name ++ "/" ++ q.text⟩ = false := by
    have some_ : name.toList ≠ [] := by simpa using proper.nonempty
    rw [Bool.eq_false_iff]
    intro absolute
    rw [isAbsolute_iff, String.append_assoc, String.toList_append, List.head?_append,
      List.head?_eq_some_head some_, Option.some_or, Option.some.injEq] at absolute
    exact proper.single (absolute ▸ List.head_mem some_)
  rw [join, if_neg (by simp [relative]), if_neg nonempty, if_neg (by simp [ends])]
  unfold joinName join
  simp only [alone, further, Bool.false_eq_true, if_false]
  split_ifs <;> simp [String.append_assoc]

theorem name_eq (p : Path) :
    p.name = match (p.parts.filter (· ≠ ".")).getLast? with
      | some part => if part = ".." then "" else part
      | none => "" := by
  have telling : p.pieces.filter (fun piece => !isIdle piece) = p.parts.filter (· ≠ ".") := by
    rw [parts, List.filter_filter]
    congr
    funext piece
    simp [isIdle, Bool.and_comm]
  exact congrArg (fun pieces => match List.getLast? pieces with
    | some part => if part = ".." then "" else part
    | none => "") telling

theorem name_joinName (p : Path) {name : String} (proper : ProperName name) :
    (p.joinName name).name = name := by
  rw [name_eq, joinName, parts_join (isRelative_of_proper proper), parts_single proper]
  simp [proper.notHere, proper.notUp]

theorem proper_name {p : Path} (named : p.name ≠ "") : ProperName p.name := by
  rw [name_eq] at named ⊢
  split at named
  · next part last =>
      have member := List.mem_of_getLast? last
      rw [List.mem_filter] at member
      obtain ⟨nonempty, single⟩ := parts_pieces member.1
      split_ifs at named with up
      · exact absurd rfl named
      · rw [if_neg up]
        exact ⟨nonempty, by simpa using member.2, up, single⟩
  · exact absurd rfl named

end Path

namespace Disk

def place (d : Disk) (p : Path) : Location := follow (if p.isAbsolute then [] else d.here) p.parts

theorem place_congr {d made : Disk} (here : made.here = d.here) (p : Path) :
    made.place p = d.place p := by
  rw [place, here, place]

theorem walk_eq_ok {tree : Tree} {above : Location} {steps : List String} {place : Location}
    (found : walk tree above steps = .ok place) : place = follow above.reverse steps := by
  induction steps generalizing above with
  | nil =>
      cases found
      rfl
  | cons step steps ih =>
      rw [walk] at found
      rw [follow]
      by_cases here : step = "."
      · simp only [here, decide_true, Bool.true_or, if_true] at found ⊢
        split at found
        · exact ih found
        · cases found
      · by_cases up : step = ".."
        · simp only [up, decide_true, Bool.or_true, if_true] at found
          split at found
          · rw [ih found]
            simp [up]
          · cases found
        · simp only [here, up, decide_false, Bool.or_self, Bool.false_eq_true, if_false] at found ⊢
          rw [ih found, List.reverse_cons]

theorem locate_eq_ok {d : Disk} {p : Path} {place : Location} (found : d.locate p = .ok place) :
    place = d.place p := by
  unfold locate at found
  split at found
  · cases found
  · rw [walk_eq_ok found, Disk.place, Path.follow_steps]
    split <;> simp

theorem place_join {d : Disk} (p : Path) {q : Path} (relative : q.isAbsolute = false) :
    d.place (p.join q) = follow (d.place p) q.parts := by
  rw [place, Path.isAbsolute_join relative, Path.parts_join relative, follow_append, place]

theorem place_joinName (d : Disk) (p : Path) {name : String} (proper : ProperName name) :
    d.place (p.joinName name) = d.place p ++ [name] := by
  rw [Path.joinName, place_join p (Path.isRelative_of_proper proper), Path.parts_single proper,
    follow_proper proper]

theorem place_here (d : Disk) (p : Path) : d.place (p.joinName ".") = d.place p := by
  have single : '/' ∉ ".".toList := by decide
  rw [Path.joinName, place_join p (Path.isRelative_name single), Path.parts_name single]
  simp [follow]

theorem place_up (d : Disk) (p : Path) : d.place (p.joinName "..") = (d.place p).dropLast := by
  have single : '/' ∉ "..".toList := by decide
  rw [Path.joinName, place_join p (Path.isRelative_name single), Path.parts_name single]
  simp [follow]

end Disk

end Cookbook
