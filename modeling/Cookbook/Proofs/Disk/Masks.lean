import Cookbook.Proofs.Disk.Passing

/-!
Masked disks, on which one folder shows only the entries of some names. Paths that avoid the names that
are masked lead to the same on both, and an operation on such a path does the same to both. What an
operation does below a masked name cannot be told from the masked disk.
-/

namespace Cookbook

def Entry.file? : Entry → Option FileData
  | .file data => some data
  | .folder _ => none

/-! ## Masked trees -/

namespace Tree

variable {tree : Tree} {name other : String} {entry : Entry} {new : Option Entry}
  {shown : String → Bool} {above base place rest : Location}

def restrict (shown : String → Bool) : Tree → Tree
  | empty => empty
  | file name data rest =>
      if shown name then file name data (rest.restrict shown) else rest.restrict shown
  | folder name content rest =>
      if shown name then folder name content (rest.restrict shown) else rest.restrict shown

/-- A tree whose folder at a place shows only the entries of some names. -/
def mask (shown : String → Bool) (base : Location) (tree : Tree) : Tree :=
  tree.change (restrict shown) base

/-- Puts an entry in the place of the one with its name, or takes that away. -/
def put (name : String) : Option Entry → Tree → Tree
  | some entry, tree => tree.set name entry
  | none, tree => tree.erase name

theorem restrict_cons (rest : Tree) :
    (cons name entry rest).restrict shown =
      if shown name then cons name entry (rest.restrict shown) else rest.restrict shown := by
  cases entry <;> rfl

theorem get?_restrict :
    (tree.restrict shown).get? name = if shown name then tree.get? name else none := by
  induction tree using cons_induction with
  | empty => simp [restrict, get?]
  | cons other entry rest ih =>
      rw [restrict_cons, get?_cons]
      by_cases same : other = name
      · subst same
        cases seen : shown other <;> simp [ih, seen]
      · cases seen : shown other <;> simp [ih, get?_cons, same]

theorem put_empty : empty.put name new = (match new with
    | some entry => cons name entry empty
    | none => empty) := by
  cases new <;> rfl

theorem put_cons (rest : Tree) :
    (cons other entry rest).put name new =
      if other = name then (match new with
        | some entry => cons name entry rest
        | none => rest)
      else cons other entry (rest.put name new) := by
  cases new with
  | none => exact erase_cons rest
  | some entry' => exact set_cons entry' rest

theorem restrict_put (seen : shown name = true) :
    (tree.put name new).restrict shown = (tree.restrict shown).put name new := by
  induction tree using cons_induction with
  | empty => cases new <;> simp [put_empty, restrict_cons, restrict, seen]
  | cons other entry rest ih =>
      rw [put_cons]
      by_cases same : other = name
      · subst same
        cases new <;> simp [restrict_cons, put_cons, seen]
      · rw [if_neg same, restrict_cons, restrict_cons, ih]
        split <;> simp [put_cons, same]

theorem restrict_put_hidden (hidden : shown name = false) :
    (tree.put name new).restrict shown = tree.restrict shown := by
  induction tree using cons_induction with
  | empty => cases new <;> simp [put_empty, restrict_cons, restrict, hidden]
  | cons other entry rest ih =>
      rw [put_cons]
      by_cases same : other = name
      · subst same
        cases new <;> simp [restrict_cons, hidden]
      · rw [if_neg same, restrict_cons, restrict_cons, ih]

theorem restrict_restrict {shown' : String → Bool} :
    (tree.restrict shown).restrict shown' =
      tree.restrict fun name => shown name && shown' name := by
  induction tree using cons_induction with
  | empty => rfl
  | cons name entry rest ih =>
      simp only [restrict_cons]
      cases shown name <;> simp [restrict_cons, ih]

theorem restrict_congr {shown' : String → Bool}
    (same : ∀ name, tree.get? name ≠ none → shown name = shown' name) :
    tree.restrict shown = tree.restrict shown' := by
  induction tree using cons_induction with
  | empty => rfl
  | cons name entry rest ih =>
      rw [restrict_cons, restrict_cons, same name (by simp), ih]
      intro other there
      apply same
      rw [get?_cons]
      split
      · simp
      · exact there

theorem restrict_true : tree.restrict (fun _ => true) = tree := by
  induction tree using cons_induction with
  | empty => rfl
  | cons name entry rest ih => rw [restrict_cons, if_pos rfl, ih]

theorem set_set (entry' : Entry) : (tree.set name entry).set name entry' = tree.set name entry' := by
  induction tree using cons_induction with
  | empty =>
      show (cons name entry empty).set name entry' = cons name entry' empty
      rw [set_cons, if_pos rfl]
  | cons other first rest ih =>
      rw [set_cons, set_cons]
      split
      · rw [set_cons, if_pos rfl]
      · next different => rw [set_cons, if_neg different, ih]

theorem change_change (f g : Tree → Tree) :
    (tree.change g base).change f base = tree.change (fun content => f (g content)) base := by
  induction base generalizing tree with
  | nil => rfl
  | cons name base ih =>
      cases inside : tree.get? name with
      | none => simp [change, inside]
      | some entry =>
          cases entry with
          | file data => simp [change, inside]
          | folder content => simp [change, inside, set_set, ih]

theorem change_append (f : Tree → Tree) :
    tree.change f (base ++ rest) = tree.change (change f rest) base := by
  induction base generalizing tree with
  | nil => rfl
  | cons name base ih => simp only [List.cons_append, change, ih]

theorem change_congr {f g : Tree → Tree}
    (same : ∀ content, tree.at? base = some (.folder content) → f content = g content) :
    tree.change f base = tree.change g base := by
  induction base generalizing tree with
  | nil => exact same tree rfl
  | cons name base ih =>
      rw [change, change]
      split
      · next content inside =>
          rw [ih]
          intro inner found
          exact same inner (by simp [at?, inside, found])
      · rfl

theorem set_of_get? (found : tree.get? name = some entry) : tree.set name entry = tree := by
  induction tree using cons_induction with
  | empty => cases found
  | cons other first rest ih =>
      rw [get?_cons] at found
      rw [set_cons]
      split at found
      · next same =>
          cases found
          rw [if_pos same, same]
      · next different => rw [if_neg different, ih found]

theorem change_of_eq {f : Tree → Tree}
    (same : ∀ content, tree.at? base = some (.folder content) → f content = content) :
    tree.change f base = tree := by
  induction base generalizing tree with
  | nil => exact same tree rfl
  | cons name base ih =>
      rw [change]
      split
      · next content inside =>
          rw [ih, set_of_get? inside]
          intro inner found
          exact same inner (by simp [at?, inside, found])
      · rfl

theorem mask_congr {shown' : String → Bool}
    (same : ∀ name, tree.at? (base ++ [name]) ≠ none → shown name = shown' name) :
    tree.mask shown base = tree.mask shown' base := by
  refine change_congr fun content found => restrict_congr fun name there => same name ?_
  rwa [at?_append found, at?_singleton]

theorem mask_of_all (all : ∀ name, tree.at? (base ++ [name]) ≠ none → shown name = true) :
    tree.mask shown base = tree := by
  have whole : tree.mask (fun _ => true) base = tree := change_of_eq fun _ _ => restrict_true
  exact (mask_congr all).trans whole

theorem at?_mask (seen : shown name = true) (rest : Location) :
    (tree.mask shown base).at? (base ++ name :: rest) = tree.at? (base ++ name :: rest) := by
  by_cases there : tree.HasFolder base
  · obtain ⟨content, found⟩ := there
    rw [mask, at?_append (at?_change found _), at?_append found, at?, at?, get?_restrict, if_pos seen]
  · have same : tree.mask shown base = tree :=
      change_of_eq fun content found => absurd ⟨content, found⟩ there
    rw [same]

theorem mask_mask {shown' : String → Bool} :
    (tree.mask shown base).mask shown' base =
      tree.mask (fun name => shown name && shown' name) base := by
  unfold mask
  rw [change_change]
  exact change_congr fun content _ => restrict_restrict

theorem append_singleton_below (below : above ++ [name] = base ++ other :: rest) :
    ∃ inner, above = base ++ inner ∧ (inner ++ [name]).head? = some other := by
  obtain ⟨inner, rfl⟩ : base <+: above := by
    refine List.prefix_of_prefix_length_le (below ▸ List.prefix_append _ _)
      (List.prefix_append _ [name]) ?_
    have lengths := congrArg List.length below
    simp only [List.length_append, List.length_cons, List.length_nil] at lengths
    omega
  refine ⟨inner, rfl, ?_⟩
  rw [List.append_assoc, List.append_cancel_left_eq] at below
  rw [below]
  rfl

theorem restrict_change (first : (rest ++ [name]).head? = some other) (seen : shown other = true) :
    (tree.change (put name new) rest).restrict shown =
      (tree.restrict shown).change (put name new) rest := by
  cases rest with
  | nil =>
      obtain rfl : name = other := by simpa using first
      exact restrict_put seen
  | cons step rest =>
      obtain rfl : step = other := by simpa using first
      rw [change, change, get?_restrict, if_pos seen]
      split
      · next content _ =>
          show (put step (some (.folder _)) tree).restrict shown = _
          exact restrict_put seen
      · rfl

theorem restrict_change_hidden (first : (rest ++ [name]).head? = some other)
    (hidden : shown other = false) :
    (tree.change (put name new) rest).restrict shown = tree.restrict shown := by
  cases rest with
  | nil =>
      obtain rfl : name = other := by simpa using first
      exact restrict_put_hidden hidden
  | cons step rest =>
      obtain rfl : step = other := by simpa using first
      rw [change]
      split
      · next content _ =>
          show (put step (some (.folder _)) tree).restrict shown = _
          exact restrict_put_hidden hidden
      · rfl

/-- A change below a name that is shown can be made before the rest is masked or afterwards. -/
theorem mask_change (below : above ++ [name] = base ++ other :: rest) (seen : shown other = true) :
    (tree.change (put name new) above).mask shown base =
      (tree.mask shown base).change (put name new) above := by
  obtain ⟨inner, rfl, first⟩ := append_singleton_below below
  unfold mask
  rw [change_append, change_append, change_change, change_change]
  exact change_congr fun content _ => restrict_change first seen

theorem mask_change_hidden (below : above ++ [name] = base ++ other :: rest)
    (hidden : shown other = false) :
    (tree.change (put name new) above).mask shown base = tree.mask shown base := by
  obtain ⟨inner, rfl, first⟩ := append_singleton_below below
  unfold mask
  rw [change_append, change_change]
  exact change_congr fun content _ => restrict_change_hidden first hidden

/-! ## What masked trees show -/

/-- That a place is not below a masked name. -/
def Visible (shown : String → Bool) (base place : Location) : Prop :=
  ∀ name rest, place = base ++ name :: rest → shown name = true

/-- What the folder at a place of a masked tree shows of what it holds. -/
def maskFrom (shown : String → Bool) (base place : Location) (content : Tree) : Tree :=
  if place <+: base then content.mask shown (base.drop place.length) else content

theorem Visible.tail {step : String} (visible : Visible shown (step :: base) (step :: place)) :
    Visible shown base place := by
  intro name rest same
  exact visible name rest (by rw [same, List.cons_append])

theorem Visible.of_append (visible : Visible shown base (place ++ rest)) :
    Visible shown base place := by
  rintro name below rfl
  exact visible name (below ++ rest) (by rw [List.append_assoc, List.cons_append])

theorem visible_of_not_prefix (outside : ¬ base <+: place) : Visible shown base place := by
  rintro name rest rfl
  exact absurd (List.prefix_append _ _) outside

end Tree

def Entry.maskFrom (shown : String → Bool) (base place : Location) : Entry → Entry
  | .file data => .file data
  | .folder content => .folder (content.maskFrom shown base place)

@[simp] theorem Entry.file?_maskFrom (shown : String → Bool) (base place : Location) (entry : Entry) :
    (entry.maskFrom shown base place).file? = entry.file? := by
  cases entry <;> rfl

theorem Entry.maskFrom_of_not_prefix {shown : String → Bool} {base place : Location}
    (notAbove : ¬ place <+: base) (entry : Entry) : entry.maskFrom shown base place = entry := by
  cases entry with
  | file data => rfl
  | folder content => rw [Entry.maskFrom, Tree.maskFrom, if_neg notAbove]

namespace Tree

variable {tree : Tree} {name : String} {shown : String → Bool} {base place : Location}

theorem get?_mask_cons {step : String} :
    (tree.mask shown (step :: base)).get? name =
      if name = step then (tree.get? name).map (Entry.maskFrom shown (step :: base) [step])
      else tree.get? name := by
  rw [mask, change]
  by_cases same : name = step
  · subst same
    rw [if_pos rfl]
    cases inside : tree.get? name with
    | none => simp [inside]
    | some entry =>
        cases entry with
        | file data => simp [inside, Entry.maskFrom]
        | folder content => simp [Entry.maskFrom, maskFrom, mask]
  · rw [if_neg same]
    split
    · exact get?_set_of_ne same _ _
    · rfl

theorem entryIn_mask (visible : Visible shown base place) :
    Disk.entryIn (tree.mask shown base) place =
      (Disk.entryIn tree place).map (Entry.maskFrom shown base place) := by
  induction place generalizing base tree with
  | nil => simp [Disk.entryIn, Except.map, Entry.maskFrom, maskFrom]
  | cons step place ih =>
      rw [Disk.entryIn, Disk.entryIn]
      split
      · rfl
      · cases base with
        | nil =>
            have whole : Entry.maskFrom shown [] (step :: place) = id := by
              funext entry
              exact Entry.maskFrom_of_not_prefix (by simp) entry
            rw [show tree.mask shown [] = tree.restrict shown from rfl, get?_restrict,
              if_pos (visible step place rfl), whole, Except.map_id, id]
        | cons other base =>
            -- Above the base only what is on the way to it is masked, so the step decides.
            rw [get?_mask_cons]
            by_cases same : step = other
            · subst same
              have below : Entry.maskFrom shown (step :: base) (step :: place) =
                  Entry.maskFrom shown base place := by
                funext entry
                cases entry <;> simp [Entry.maskFrom, maskFrom, List.cons_prefix_cons]
              rw [if_pos rfl, below]
              cases inside : tree.get? step with
              | none => rfl
              | some entry =>
                  cases entry with
                  | file data => by_cases last : place = [] <;> simp [Entry.maskFrom, last, Except.map]
                  | folder content =>
                      have content_ : maskFrom shown (step :: base) [step] content =
                          content.mask shown base := by
                        simp [maskFrom, List.cons_prefix_cons]
                      simp [Entry.maskFrom, content_, ih visible.tail]
            · have whole : Entry.maskFrom shown (other :: base) (step :: place) = id := by
                funext entry
                exact Entry.maskFrom_of_not_prefix (by simp [List.cons_prefix_cons, same]) entry
              rw [if_neg same, whole, Except.map_id, id]

end Tree

/-! ## What masked disks show -/

namespace Disk

variable {d made : Disk} {p q : Path} {tree : Tree} {shown : String → Bool}
  {above base place : Location} {name : String}

def masked (d : Disk) (shown : String → Bool) (base : Location) : Disk :=
  { d with root := d.root.mask shown base }

theorem masked_congr {shown' : String → Bool}
    (same : ∀ name, d.root.at? (base ++ [name]) ≠ none → shown name = shown' name) :
    d.masked shown base = d.masked shown' base := by
  rw [masked, masked, Tree.mask_congr same]

theorem masked_of_all (all : ∀ name, d.root.at? (base ++ [name]) ≠ none → shown name = true) :
    d.masked shown base = d := by
  rw [masked, Tree.mask_of_all all]

def nothing : String → Bool := fun _ => false

theorem masked_nothing : (d.masked shown base).masked nothing base = d.masked nothing base := by
  have same : (fun name => shown name && nothing name) = nothing := by
    funext name
    exact Bool.and_false _
  simp only [masked, Tree.mask_mask, same]

/-- That a path passes no place below a masked name. -/
def Sees (d : Disk) (shown : String → Bool) (base : Location) (p : Path) : Prop :=
  ∀ steps, steps <+: p.parts →
    Tree.Visible shown base (follow (if p.isAbsolute then [] else d.here) steps)

theorem Sees.visible (sees : d.Sees shown base p) : Tree.Visible shown base (d.place p) :=
  sees p.parts List.prefix_rfl

theorem sees_of_noStepUp (noStepUp : ".." ∉ p.parts) (outside : ¬ base <+: d.place p) :
    d.Sees shown base p := fun _ starts =>
  Tree.visible_of_not_prefix fun below => outside (below.trans (follow_front noStepUp starts _))

theorem folderIn_mask (visible : Tree.Visible shown base place) :
    folderIn (tree.mask shown base) place =
      (folderIn tree place).map (Tree.maskFrom shown base place) := by
  unfold folderIn
  rw [Tree.entryIn_mask visible]
  cases entryIn tree place with
  | error fault => rfl
  | ok entry => cases entry <;> rfl

theorem walk_mask {steps : List String}
    (visible : ∀ front, front <+: steps → Tree.Visible shown base (follow above.reverse front)) :
    walk (tree.mask shown base) above steps = walk tree above steps := by
  induction steps generalizing above with
  | nil => rfl
  | cons step steps ih =>
      have onward (front : List String) (starts : front <+: steps) :=
        visible (step :: front) (List.cons_prefix_cons.mpr ⟨rfl, starts⟩)
      rw [walk, walk]
      split
      · next still =>
          have here : Tree.Visible shown base above.reverse := visible [] List.nil_prefix
          rw [folderIn_mask here]
          cases folderIn tree above.reverse with
          | error fault => rfl
          | ok content =>
              apply ih
              intro front starts
              have seen := onward front starts
              simp only [Bool.or_eq_true, decide_eq_true_eq] at still
              obtain rfl | rfl := still
              · simpa [follow] using seen
              · simpa [follow] using seen
      · next moves =>
          simp only [Bool.or_eq_true, decide_eq_true_eq, not_or] at moves
          apply ih
          intro front starts
          have seen := onward front starts
          rwa [follow, if_neg moves.1, if_neg moves.2, ← List.reverse_cons] at seen

theorem way_masked (sees : d.Sees shown base p) :
    walk (d.root.mask shown base) (if p.isAbsolute then [] else d.here.reverse) p.parts =
      walk d.root (if p.isAbsolute then [] else d.here.reverse) p.parts := by
  refine walk_mask fun front starts => ?_
  rw [apply_ite List.reverse, List.reverse_nil, List.reverse_reverse]
  exact sees front starts

theorem locate_masked (sees : d.Sees shown base p) : (d.masked shown base).locate p = d.locate p := by
  have steps : p.steps = p.parts ++ if p.endsInSlash then ["."] else [] := rfl
  have same : (d.masked shown base).refuse? p = d.refuse? p := rfl
  unfold locate
  rw [same]
  cases d.refuse? p with
  | some fault => rfl
  | none =>
      show walk (d.root.mask shown base) (if p.isAbsolute then [] else d.here.reverse) p.steps = _
      rw [steps, walk_append, walk_append, way_masked sees]
      cases way : walk d.root (if p.isAbsolute then [] else d.here.reverse) p.parts with
      | error fault => rfl
      | ok walked =>
          have place : walked = d.place p := by
            rw [walk_eq_ok way, apply_ite List.reverse, List.reverse_nil, List.reverse_reverse,
              Disk.place]
          refine walk_mask fun front starts => ?_
          have here : follow walked.reverse.reverse front = d.place p := by
            rw [List.reverse_reverse, place]
            split at starts
            · obtain rfl | rfl : front = [] ∨ front = ["."] := by
                cases front with
                | nil => exact .inl rfl
                | cons step front =>
                    obtain ⟨rfl, last⟩ := List.cons_prefix_cons.mp starts
                    exact .inr (by rw [List.prefix_nil.mp last])
              · rfl
              · simp [follow]
            · rw [List.prefix_nil.mp starts, follow]
          exact here ▸ sees.visible

theorem entry_masked (sees : d.Sees shown base p) :
    (d.masked shown base).entry p = (d.entry p).map (Entry.maskFrom shown base (d.place p)) := by
  unfold Disk.entry
  rw [locate_masked sees]
  cases located : d.locate p with
  | error fault => rfl
  | ok place =>
      obtain rfl := locate_eq_ok located
      exact Tree.entryIn_mask sees.visible

theorem isFile_masked (sees : d.Sees shown base p) : (d.masked shown base).isFile p = d.isFile p := by
  unfold isFile
  rw [entry_masked sees]
  cases d.entry p with
  | error fault => rfl
  | ok entry => cases entry <;> rfl

theorem isFolder_masked (sees : d.Sees shown base p) :
    (d.masked shown base).isFolder p = d.isFolder p := by
  unfold isFolder
  rw [entry_masked sees]
  cases d.entry p with
  | error fault => rfl
  | ok entry => cases entry <;> rfl

theorem readFile_masked (sees : d.Sees shown base p) :
    (d.masked shown base).readFile p = d.readFile p := by
  unfold readFile
  rw [entry_masked sees]
  cases d.entry p with
  | error fault => rfl
  | ok entry => cases entry <;> rfl

theorem readText_masked (sees : d.Sees shown base p) :
    (d.masked shown base).readText p = d.readText p := by
  unfold readText
  rw [readFile_masked sees]

theorem list_masked (sees : d.Sees shown base p) (notAbove : ¬ d.place p <+: base) :
    (d.masked shown base).list p = d.list p := by
  unfold list
  rw [locate_masked sees]
  cases located : d.locate p with
  | error fault => rfl
  | ok place =>
      obtain rfl := locate_eq_ok located
      have whole : Tree.maskFrom shown base (d.place p) = id := by
        funext content
        rw [Tree.maskFrom, if_neg notAbove, id]
      show folderIn (d.root.mask shown base) (d.place p) = folderIn d.root (d.place p)
      rw [folderIn_mask sees.visible, whole, Except.map_id, id]

end Disk
end Cookbook
