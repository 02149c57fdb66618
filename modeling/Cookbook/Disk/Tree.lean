/-!
File trees. A folder lists what it holds in the order in which it came to hold it; a name occurs once
in a folder. Places in a tree are lists of names from the top.
-/

namespace Cookbook

structure FileData where
  bytes : ByteArray
  /-- Whether the file may be run as a program. -/
  executable : Bool

instance : DecidableEq FileData := fun first second =>
  have := ByteArray.instDecidableEq first.bytes second.bytes
  decidable_of_iff (first.bytes = second.bytes ∧ first.executable = second.executable)
    (FileData.mk.injEq .. ▸ .rfl)

inductive Tree
  | empty
  | file (name : String) (data : FileData) (rest : Tree)
  | folder (name : String) (content : Tree) (rest : Tree)
deriving DecidableEq, Inhabited

inductive Entry
  | file (data : FileData)
  | folder (content : Tree)
deriving DecidableEq

abbrev Location := List String

def Entry.isFolder : Entry → Bool
  | .folder _ => true
  | .file _ => false

namespace Tree

def entries : Tree → List (String × Entry)
  | empty => []
  | file name data rest => (name, .file data) :: rest.entries
  | folder name content rest => (name, .folder content) :: rest.entries

def get? : Tree → String → Option Entry
  | empty, _ => none
  | file name data rest, wanted => if name = wanted then some (.file data) else rest.get? wanted
  | folder name content rest, wanted =>
      if name = wanted then some (.folder content) else rest.get? wanted

def cons (name : String) : Entry → Tree → Tree
  | .file data, rest => file name data rest
  | .folder content, rest => folder name content rest

/-- Puts an entry in the place of the one with its name, or at the end. -/
def set (wanted : String) (entry : Entry) : Tree → Tree
  | empty => cons wanted entry empty
  | file name data rest =>
      if name = wanted then cons wanted entry rest else file name data (rest.set wanted entry)
  | folder name content rest =>
      if name = wanted then cons wanted entry rest else folder name content (rest.set wanted entry)

def erase (unwanted : String) : Tree → Tree
  | empty => empty
  | file name data rest =>
      if name = unwanted then rest else file name data (rest.erase unwanted)
  | folder name content rest =>
      if name = unwanted then rest else folder name content (rest.erase unwanted)

def at? (tree : Tree) : Location → Option Entry
  | [] => some (.folder tree)
  | name :: place => match tree.get? name with
    | some (.folder content) => content.at? place
    | some (.file data) => if place = [] then some (.file data) else none
    | none => none

/-- Changes what the folder at a place holds. Without a folder there, nothing changes. -/
def change (f : Tree → Tree) : Location → Tree → Tree
  | [], tree => f tree
  | name :: place, tree => match tree.get? name with
    | some (.folder content) => tree.set name (.folder (change f place content))
    | _ => tree

@[simp] theorem get?_cons_self (name : String) (entry : Entry) (rest : Tree) :
    (cons name entry rest).get? name = some entry := by
  cases entry <;> simp [cons, get?]

@[simp] theorem get?_set_self (name : String) (entry : Entry) (tree : Tree) :
    (tree.set name entry).get? name = some entry := by
  induction tree with
  | empty => simp [set]
  | file other data rest ih => by_cases h : other = name <;> simp [set, get?, h, ih]
  | folder other content rest _ ih => by_cases h : other = name <;> simp [set, get?, h, ih]

theorem get?_set_of_ne {name wanted : String} (ne : wanted ≠ name) (entry : Entry) (tree : Tree) :
    (tree.set name entry).get? wanted = tree.get? wanted := by
  have apart (rest : Tree) : (cons name entry rest).get? wanted = rest.get? wanted := by
    cases entry <;> simp [cons, get?, ne.symm]
  induction tree with
  | empty => simp [set, apart]
  | file other data rest ih =>
      by_cases h : other = name
      · simp [set, h, apart, get?, ne.symm]
      · simp [set, h, get?, ih]
  | folder other content rest _ ih =>
      by_cases h : other = name
      · simp [set, h, apart, get?, ne.symm]
      · simp [set, h, get?, ih]

end Tree

end Cookbook
