import Cookbook.OrderedMap
import Mathlib.Data.List.Perm.Basic
import Mathlib.Tactic.SplitIfs

/-!
What a map holds for each key. It is all that tells two maps apart.
-/

namespace Cookbook
namespace OrderedMap

variable {κ ν μ : Type} [Ord κ]

theorem keys_pairwise (map : OrderedMap κ ν) : map.keys.Pairwise fun a b => compare a b = .lt :=
  List.pairwise_map.mpr map.ascending

variable [Std.LawfulEqOrd κ]

theorem ne_of_less {a b : κ} (less : compare a b = .lt) : a ≠ b := by
  rintro rfl
  rw [Std.ReflOrd.compare_self] at less
  cases less

theorem eq_of_ascending [Std.TransOrd κ] {α : Type} (key : α → κ) {first second : List α}
    (ascending : first.Pairwise fun a b => compare (key a) (key b) = .lt)
    (ascending' : second.Pairwise fun a b => compare (key a) (key b) = .lt)
    (same : ∀ a, a ∈ first ↔ a ∈ second) : first = second := by
  have nodup {items : List α} (ascending : items.Pairwise fun a b => compare (key a) (key b) = .lt) :
      items.Nodup := ascending.imp fun less equal => ne_of_less less (congrArg key equal)
  have members : first.Perm second :=
    (List.perm_ext_iff_of_nodup (nodup ascending) (nodup ascending')).mpr same
  refine members.eq_of_pairwise ?_ ascending ascending'
  intro a b _ _ less more
  rw [Std.OrientedCmp.gt_iff_lt.mpr less] at more
  cases more

variable [DecidableEq κ] {map other : OrderedMap κ ν} {entries : List (κ × ν)} {entry : κ × ν}
  {key wanted : κ} {value : ν}

/-- The value of a key among entries. -/
def lookup? (key : κ) (entries : List (κ × ν)) : Option ν :=
  (entries.find? fun entry => compare key entry.1 == .eq).map (·.2)

theorem lookup?_cons :
    lookup? key (entry :: entries) = if key = entry.1 then some entry.2 else lookup? key entries := by
  by_cases same : key = entry.1
  · simp [lookup?, same]
  · simp [lookup?, same]

theorem lookup?_of_below (below : ∀ entry ∈ entries, compare key entry.1 = .lt) :
    lookup? key entries = none := by
  induction entries with
  | nil => rfl
  | cons entry entries ih =>
      obtain ⟨less, below⟩ := List.forall_mem_cons.mp below
      rw [lookup?_cons, if_neg (ne_of_less less), ih below]

theorem lookup?_eq_some (ascending : entries.Pairwise fun a b => compare a.1 b.1 = .lt) :
    lookup? key entries = some value ↔ (key, value) ∈ entries := by
  induction entries with
  | nil => simp [lookup?]
  | cons entry entries ih =>
      obtain ⟨above, rest⟩ := List.pairwise_cons.mp ascending
      rw [lookup?_cons, List.mem_cons, Prod.ext_iff]
      split_ifs with same
      · subst same
        have fresh : (entry.1, value) ∉ entries := fun later => ne_of_less (above _ later) rfl
        simp [fresh, eq_comm]
      · simp [ih rest, same]

theorem get?_eq_some : map.get? key = some value ↔ (key, value) ∈ map.entries :=
  lookup?_eq_some map.ascending

theorem mem_keys_iff : key ∈ map.keys ↔ map.get? key ≠ none := by
  rw [Option.ne_none_iff_exists']
  simp only [get?_eq_some, keys, List.mem_map, Prod.exists, exists_and_right, exists_eq_right]

theorem entries_eq (map : OrderedMap κ ν) {value : κ → ν}
    (values : ∀ key, map.get? key ≠ none → map.get? key = some (value key)) :
    map.entries = map.keys.map fun key => (key, value key) := by
  rw [keys, List.map_map]
  refine (List.map_id _).symm.trans (List.map_congr_left ?_)
  intro ⟨key, held⟩ member
  have found := get?_eq_some.mpr member
  have same := values key (by simp [found])
  rw [found, Option.some.injEq] at same
  exact Prod.ext rfl same

variable [Std.TransOrd κ]

theorem lookup?_alterEntries (ascending : entries.Pairwise fun a b => compare a.1 b.1 = .lt)
    (value : Option ν → ν) :
    lookup? wanted (alterEntries key value entries) =
      if wanted = key then some (value (lookup? key entries)) else lookup? wanted entries := by
  induction entries with
  | nil => simp [alterEntries, lookup?]
  | cons entry entries ih =>
      obtain ⟨above, rest⟩ := List.pairwise_cons.mp ascending
      rw [alterEntries]
      split
      next less =>
        have below : ∀ later ∈ entry :: entries, compare key later.1 = .lt :=
          List.forall_mem_cons.mpr ⟨less, fun _ later => Std.TransCmp.lt_trans less (above _ later)⟩
        rw [lookup?_of_below below, lookup?_cons]
      next same =>
        obtain rfl := Std.LawfulEqOrd.eq_of_compare same
        rw [lookup?_cons, lookup?_cons, lookup?_cons, if_pos rfl]
        split_ifs <;> rfl
      next greater =>
        have other : entry.1 ≠ key := ne_of_less (Std.OrientedCmp.gt_iff_lt.mp greater)
        rw [lookup?_cons, ih rest, lookup?_cons, lookup?_cons, if_neg other.symm]
        split_ifs with first second
        · exact absurd (first.symm.trans second) other
        · rfl
        · rfl
        · rfl

theorem get?_alter (map : OrderedMap κ ν) (key wanted : κ) (value : Option ν → ν) :
    (map.alter key value).get? wanted =
      if wanted = key then some (value (map.get? key)) else map.get? wanted :=
  lookup?_alterEntries map.ascending value

theorem ext_get? (same : ∀ key, map.get? key = other.get? key) : map = other := by
  have entries : map.entries = other.entries := by
    refine eq_of_ascending Prod.fst map.ascending other.ascending ?_
    intro ⟨key, value⟩
    rw [← get?_eq_some, ← get?_eq_some, same]
  cases map
  cases other
  cases entries
  rfl

theorem keys_eq {other : OrderedMap κ μ} (same : ∀ key, map.get? key = none ↔ other.get? key = none) :
    map.keys = other.keys := by
  refine eq_of_ascending id map.keys_pairwise other.keys_pairwise fun key => ?_
  rw [mem_keys_iff, mem_keys_iff, ne_eq, ne_eq, same]

end OrderedMap
end Cookbook
