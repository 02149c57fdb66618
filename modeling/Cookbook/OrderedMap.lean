/-!
Finite maps as their entries in ascending order of the keys, each key once. The order is part of the
type, so listing a map needs no sorting.
-/

namespace Cookbook

structure OrderedMap (κ ν : Type) [Ord κ] where
  entries : List (κ × ν)
  ascending : entries.Pairwise fun a b => compare a.1 b.1 = .lt

namespace OrderedMap

variable {κ ν : Type} [Ord κ]

instance [DecidableEq κ] [DecidableEq ν] : DecidableEq (OrderedMap κ ν) := fun a b =>
  decidable_of_iff (a.entries = b.entries)
    ⟨fun same => by cases a; cases b; simp_all, fun same => by rw [same]⟩

def empty : OrderedMap κ ν := ⟨[], .nil⟩

instance : Inhabited (OrderedMap κ ν) := ⟨empty⟩

def isEmpty (map : OrderedMap κ ν) : Bool := map.entries.isEmpty

def size (map : OrderedMap κ ν) : Nat := map.entries.length

def keys (map : OrderedMap κ ν) : List κ := map.entries.map (·.1)

def values (map : OrderedMap κ ν) : List ν := map.entries.map (·.2)

def get? (map : OrderedMap κ ν) (key : κ) : Option ν :=
  (map.entries.find? fun entry => compare key entry.1 == .eq).map (·.2)

def contains (map : OrderedMap κ ν) (key : κ) : Bool := (map.get? key).isSome

/-- Gives the key the value made from the one it has, if any. -/
def alterEntries (key : κ) (value : Option ν → ν) : List (κ × ν) → List (κ × ν)
  | [] => [(key, value none)]
  | entry :: rest => match compare key entry.1 with
    | .lt => (key, value none) :: entry :: rest
    | .eq => (entry.1, value (some entry.2)) :: rest
    | .gt => entry :: alterEntries key value rest

theorem key_mem_alterEntries {key : κ} {value : Option ν → ν} {entries : List (κ × ν)}
    {entry : κ × ν} (member : entry ∈ alterEntries key value entries) :
    entry.1 = key ∨ ∃ old ∈ entries, old.1 = entry.1 := by
  induction entries with
  | nil => simp_all [alterEntries]
  | cons head rest ih =>
      rw [alterEntries] at member
      split at member
      · rcases List.mem_cons.mp member with rfl | old
        · exact .inl rfl
        · exact .inr ⟨entry, old, rfl⟩
      · rcases List.mem_cons.mp member with rfl | old
        · exact .inr ⟨head, List.mem_cons_self, rfl⟩
        · exact .inr ⟨entry, List.mem_cons_of_mem _ old, rfl⟩
      · rcases List.mem_cons.mp member with rfl | later
        · exact .inr ⟨entry, List.mem_cons_self, rfl⟩
        · rcases ih later with same | ⟨old, oldMember, same⟩
          · exact .inl same
          · exact .inr ⟨old, List.mem_cons_of_mem _ oldMember, same⟩

theorem alterEntries_ascending [Std.TransOrd κ] (key : κ) (value : Option ν → ν)
    {entries : List (κ × ν)} (ascending : entries.Pairwise fun a b => compare a.1 b.1 = .lt) :
    (alterEntries key value entries).Pairwise fun a b => compare a.1 b.1 = .lt := by
  induction entries with
  | nil => simp [alterEntries]
  | cons head rest ih =>
      obtain ⟨above, rest⟩ := List.pairwise_cons.mp ascending
      rw [alterEntries]
      split
      next less =>
        refine List.pairwise_cons.mpr ⟨fun entry member => ?_, ascending⟩
        rcases List.mem_cons.mp member with rfl | later
        · exact less
        · exact Std.TransCmp.lt_trans less (above entry later)
      next => exact List.pairwise_cons.mpr ⟨above, rest⟩
      next greater =>
        refine List.pairwise_cons.mpr ⟨fun entry member => ?_, ih rest⟩
        rcases key_mem_alterEntries member with same | ⟨old, oldMember, same⟩
        · rw [same]
          exact Std.OrientedCmp.gt_iff_lt.mp greater
        · rw [← same]
          exact above old oldMember

def alter [Std.TransOrd κ] (map : OrderedMap κ ν) (key : κ) (value : Option ν → ν) :
    OrderedMap κ ν :=
  ⟨alterEntries key value map.entries, alterEntries_ascending key value map.ascending⟩

def insert [Std.TransOrd κ] (map : OrderedMap κ ν) (key : κ) (value : ν) : OrderedMap κ ν :=
  map.alter key fun _ => value

end OrderedMap

end Cookbook
