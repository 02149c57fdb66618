import Cookbook.Proofs.Disk.Folders

/-!
Ways to folders. A path that leads to a folder keeps leading there as long as no folder goes away; what
is directly in the folder can be located by its name; and folders that were made are led to.
-/

namespace Cookbook
namespace Disk

variable {d made : Disk} {p q : Path} {tree tree' : Tree} {entry : Entry} {above place : Location}

/-! ## Walking -/

theorem entryIn_iff :
    entryIn tree place = .ok entry ↔
      tree.at? place = some entry ∧ ∀ name ∈ place, name.utf8ByteSize ≤ nameLimit := by
  induction place generalizing tree with
  | nil => simp [entryIn, Tree.at?]
  | cons name place ih =>
      rw [entryIn, List.forall_mem_cons]
      by_cases tooLong : nameLimit < name.utf8ByteSize
      · simp [tooLong, Nat.not_le.mpr tooLong]
      · cases inside : tree.get? name with
        | none => simp [tooLong, Tree.at?, inside]
        | some here =>
            cases here with
            | folder content => simp [tooLong, Tree.at?, inside, ih, Nat.not_lt.mp tooLong]
            | file data =>
                by_cases last : place = []
                · simp [tooLong, Tree.at?, inside, last, Nat.not_lt.mp tooLong]
                · simp [tooLong, Tree.at?, inside, last]

theorem folderIn_iff {content : Tree} :
    folderIn tree place = .ok content ↔
      tree.at? place = some (.folder content) ∧ ∀ name ∈ place, name.utf8ByteSize ≤ nameLimit := by
  rw [← entryIn_iff, folderIn]
  cases entryIn tree place with
  | error fault => simp
  | ok entry => cases entry <;> simp

theorem walk_append (front back : List String) :
    walk tree above (front ++ back) =
      (walk tree above front >>= fun place => walk tree place.reverse back) := by
  induction front generalizing above with
  | nil => simp [walk, bind, Except.bind]
  | cons step front ih =>
      rw [List.cons_append, walk, walk]
      split
      · split
        · exact ih
        · rfl
      · exact ih

theorem walk_here :
    walk tree above ["."] = (folderIn tree above.reverse).map fun _ => above.reverse := by
  simp only [walk, decide_true, Bool.true_or, if_true]
  cases folderIn tree above.reverse <;> rfl

/-- Walking on another tree ends in the same place if no folder that the way passes is missing there. -/
theorem walk_of_passed {steps : List String} (found : walk tree above steps = .ok place)
    (keeps : ∀ front, front <+: steps → tree.HasFolder (follow above.reverse front) →
      tree'.HasFolder (follow above.reverse front)) : walk tree' above steps = .ok place := by
  induction steps generalizing above with
  | nil => exact found
  | cons step steps ih =>
      rw [walk] at found ⊢
      split at found
      · next still =>
          rw [if_pos still]
          split at found
          · next content inside =>
              obtain ⟨there, usable⟩ := folderIn_iff.mp inside
              obtain ⟨content', there'⟩ := keeps [] List.nil_prefix ⟨content, there⟩
              have inside' : folderIn tree' above.reverse = .ok content' :=
                folderIn_iff.mpr ⟨there', usable⟩
              rw [inside']
              refine ih found fun front starts => ?_
              have onward := keeps (step :: front) (List.cons_prefix_cons.mpr ⟨rfl, starts⟩)
              rw [follow] at onward
              simp only [Bool.or_eq_true, decide_eq_true_eq] at still
              obtain rfl | rfl := still
              · exact onward
              · simpa using onward
          · cases found
      · next moves =>
          rw [if_neg moves]
          simp only [Bool.or_eq_true, decide_eq_true_eq, not_or] at moves
          refine ih found fun front starts => ?_
          have onward := keeps (step :: front) (List.cons_prefix_cons.mpr ⟨rfl, starts⟩)
          rwa [follow, if_neg moves.1, if_neg moves.2, ← List.reverse_cons] at onward

theorem walk_mono {steps : List String} (found : walk tree above steps = .ok place)
    (keeps : ∀ place, tree.HasFolder place → tree'.HasFolder place) :
    walk tree' above steps = .ok place :=
  walk_of_passed found fun _ _ => keeps _

/-! ## Paths that lead to folders -/

/-- That the way a path describes ends at a folder, no matter how long the path's text is. -/
structure Leads (d : Disk) (p : Path) : Prop where
  way : walk d.root (if p.isAbsolute then [] else d.here.reverse) p.parts = .ok (d.place p)
  folder : d.root.HasFolder (d.place p)
  usable : ∀ name ∈ d.place p, name.utf8ByteSize ≤ nameLimit

theorem locate_iff :
    d.locate p = .ok place ↔
      d.refuse? p = none ∧
        walk d.root (if p.isAbsolute then [] else d.here.reverse) p.parts = .ok place ∧
        (p.endsInSlash = true → ∃ content, folderIn d.root place = .ok content) := by
  have steps : p.steps = p.parts ++ if p.endsInSlash then ["."] else [] := rfl
  unfold locate
  cases d.refuse? p with
  | some fault => simp
  | none =>
      -- A slash at the end is one more step that stays, and asks for a folder.
      rw [steps, walk_append]
      cases found : walk d.root (if p.isAbsolute then [] else d.here.reverse) p.parts with
      | error fault => simp [bind, Except.bind]
      | ok walked =>
          by_cases ends : p.endsInSlash = true
          · rw [if_pos ends]
            show walk d.root walked.reverse ["."] = .ok place ↔ _
            rw [walk_here, List.reverse_reverse]
            constructor
            · intro stayed
              cases inside : folderIn d.root walked with
              | error fault =>
                  rw [inside] at stayed
                  cases stayed
              | ok content =>
                  rw [inside] at stayed
                  cases stayed
                  exact ⟨rfl, rfl, fun _ => ⟨content, inside⟩⟩
            · intro ⟨_, same, folder⟩
              cases same
              obtain ⟨content, inside⟩ := folder ends
              rw [inside]
              rfl
          · simp [bind, Except.bind, walk, ends]

theorem entry_iff {entry : Entry} :
    d.entry p = .ok entry ↔ d.locate p = .ok (d.place p) ∧ d.root.at? (d.place p) = some entry ∧
      ∀ name ∈ d.place p, name.utf8ByteSize ≤ nameLimit := by
  unfold Disk.entry
  rw [except_bind_eq_ok]
  constructor
  · intro ⟨place, located, inside⟩
    obtain rfl := locate_eq_ok located
    exact ⟨located, entryIn_iff.mp inside⟩
  · intro ⟨located, inside⟩
    exact ⟨_, located, entryIn_iff.mpr inside⟩

theorem isFolder_iff : d.isFolder p = true ↔ d.refuse? p = none ∧ d.Leads p := by
  constructor
  · intro folder
    obtain ⟨content, found⟩ := isFolder_iff_entry.mp folder
    obtain ⟨located, there, usable⟩ := entry_iff.mp found
    obtain ⟨accepted, way, -⟩ := locate_iff.mp located
    exact ⟨accepted, way, ⟨content, there⟩, usable⟩
  · intro ⟨accepted, way, ⟨content, there⟩, usable⟩
    have located := locate_iff.mpr ⟨accepted, way, fun _ => ⟨content, folderIn_iff.mpr ⟨there, usable⟩⟩⟩
    exact isFolder_iff_entry.mpr ⟨content, entry_iff.mpr ⟨located, there, usable⟩⟩

theorem list_of_isFolder (folder : d.isFolder p = true) : ∃ content, d.list p = .ok content := by
  obtain ⟨accepted, way, ⟨content, there⟩, usable⟩ := isFolder_iff.mp folder
  have inside : folderIn d.root (d.place p) = .ok content := folderIn_iff.mpr ⟨there, usable⟩
  have located : d.locate p = .ok (d.place p) :=
    locate_iff.mpr ⟨accepted, way, fun _ => ⟨content, inside⟩⟩
  refine ⟨content, ?_⟩
  rw [list, located]
  exact inside

theorem Leads.of_passed (leads : d.Leads p) (same : made = { d with root := made.root })
    (keeps : ∀ front, front <+: p.parts →
      d.root.HasFolder (follow (if p.isAbsolute then [] else d.here) front) →
      made.root.HasFolder (follow (if p.isAbsolute then [] else d.here) front)) : made.Leads p := by
  have place : made.place p = d.place p := by
    rw [same]
    rfl
  have here : made.here = d.here := by rw [same]
  refine ⟨?_, ?_, ?_⟩
  · rw [place, here]
    refine walk_of_passed leads.way ?_
    rwa [apply_ite List.reverse, List.reverse_nil, List.reverse_reverse]
  · rw [place]
    exact keeps p.parts List.prefix_rfl leads.folder
  · rw [place]
    exact leads.usable

theorem Leads.mono (leads : d.Leads p) (same : made = { d with root := made.root })
    (keeps : d.KeepsFolders made) : made.Leads p :=
  leads.of_passed same fun _ _ => keeps _

theorem isFolder_mono (same : made = { d with root := made.root }) (keeps : d.KeepsFolders made)
    (folder : d.isFolder p = true) : made.isFolder p = true := by
  obtain ⟨accepted, leads⟩ := isFolder_iff.mp folder
  refine isFolder_iff.mpr ⟨?_, leads.mono same keeps⟩
  rw [same]
  exact accepted

theorem Leads.congr (leads : d.Leads p) (absolute : q.isAbsolute = p.isAbsolute)
    (parts : q.parts = p.parts) : d.Leads q := by
  have place : d.place q = d.place p := by rw [Disk.place, Disk.place, absolute, parts]
  refine ⟨?_, ?_, ?_⟩
  · rw [absolute, parts, place]
    exact leads.way
  · rw [place]
    exact leads.folder
  · rw [place]
    exact leads.usable

/-! ## Below a folder -/

theorem Leads.walk_joinName (leads : d.Leads p) {name : String} (single : '/' ∉ name.toList) :
    walk d.root (if (p.joinName name).isAbsolute then [] else d.here.reverse)
      (p.joinName name).parts = .ok (d.place (p.joinName name)) := by
  obtain ⟨content, there⟩ := leads.folder
  have inside : folderIn d.root (d.place p) = .ok content := folderIn_iff.mpr ⟨there, leads.usable⟩
  rw [Path.joinName, place_join p (Path.isRelative_name single),
    Path.isAbsolute_join (Path.isRelative_name single),
    Path.parts_join (Path.isRelative_name single), walk_append, leads.way, Path.parts_name single]
  simp only [bind, Except.bind]
  split_ifs with empty
  · simp [walk, follow]
  · by_cases here : name = "."
    · simp [walk, here, inside, follow]
    · by_cases up : name = ".."
      · simp [walk, up, inside, follow, List.tail_reverse]
      · simp [walk, here, up, follow]

theorem walk_of_joinName {name : String} (single : '/' ∉ name.toList)
    (way : walk d.root (if (p.joinName name).isAbsolute then [] else d.here.reverse)
      (p.joinName name).parts = .ok place) :
    walk d.root (if p.isAbsolute then [] else d.here.reverse) p.parts = .ok (d.place p) ∧
      walk d.root (d.place p).reverse (Path.parts ⟨name⟩) = .ok place := by
  rw [Path.joinName, Path.isAbsolute_join (Path.isRelative_name single),
    Path.parts_join (Path.isRelative_name single), walk_append, except_bind_eq_ok] at way
  obtain ⟨walked, start, onward⟩ := way
  obtain rfl : walked = d.place p := by
    rw [walk_eq_ok start, Disk.place]
    split <;> simp
  exact ⟨start, onward⟩

theorem Leads.of_joinName {name : String} (single : '/' ∉ name.toList)
    (leads : d.Leads (p.joinName name)) : d.Leads p := by
  obtain ⟨start, onward⟩ := walk_of_joinName single leads.way
  have place := place_join (d := d) p (Path.isRelative_name single)
  have folder := leads.folder
  have usable := leads.usable
  rw [Path.joinName, place] at folder usable
  rw [Path.parts_name single] at onward folder usable
  split_ifs at onward folder usable with empty
  · exact ⟨start, folder, usable⟩
  · by_cases proper : name = "." ∨ name = ".."
    · -- A step that stays or goes up asks for a folder where it starts.
      have inside : ∃ content, folderIn d.root (d.place p) = .ok content := by
        cases inside : folderIn d.root (d.place p) with
        | ok content => exact ⟨content, rfl⟩
        | error fault => rcases proper with rfl | rfl <;> simp [walk, inside] at onward
      obtain ⟨content, inside⟩ := inside
      obtain ⟨there, usable⟩ := folderIn_iff.mp inside
      exact ⟨start, ⟨content, there⟩, usable⟩
    · rw [not_or] at proper
      rw [follow_proper ⟨empty, proper.1, proper.2, single⟩] at folder usable
      exact ⟨start, folder.of_append, fun name member => usable name (List.mem_append_left _ member)⟩

theorem Leads.joinName {name : String} (proper : ProperName name) (leads : d.Leads p)
    (folder : d.root.HasFolder (d.place p ++ [name])) (short : name.utf8ByteSize ≤ nameLimit) :
    d.Leads (p.joinName name) := by
  have place := place_joinName d p proper
  refine ⟨leads.walk_joinName proper.single, ?_, ?_⟩
  · rwa [place]
  · rw [place]
    intro other member
    rw [List.mem_append, List.mem_singleton] at member
    cases member with
    | inl member => exact leads.usable other member
    | inr same => exact same ▸ short

/-! ## Making folders -/

theorem spot_way {folder : Tree} {name : String} (found : d.spot p = .ok (above, folder, name)) :
    d.locate p = .ok (above ++ [name]) ∧ folderIn d.root above = .ok folder ∧
      name.utf8ByteSize ≤ nameLimit := by
  unfold spot at found
  rw [except_bind_eq_ok] at found
  obtain ⟨place, located, found⟩ := found
  split at found
  · cases found
  · next last =>
      rw [except_bind_eq_ok] at found
      obtain ⟨content, inside, found⟩ := found
      split at found
      · cases found
      · next short =>
          cases found
          obtain ⟨front, rfl⟩ := List.getLast?_eq_some_iff.mp last
          rw [List.dropLast_concat] at inside ⊢
          exact ⟨located, inside, Nat.not_lt.mp short⟩

theorem Leads.of_spot {name last : String} {folder : Tree} (proper : ProperName name)
    (found : d.spot (p.joinName name) = .ok (above, folder, last)) : d.Leads p := by
  obtain ⟨located, inside, -⟩ := spot_way found
  obtain ⟨-, way, -⟩ := locate_iff.mp located
  have place := locate_eq_ok located
  rw [place_joinName d p proper] at place
  obtain ⟨rfl, -⟩ := List.append_inj' place rfl
  obtain ⟨there, usable⟩ := folderIn_iff.mp inside
  exact ⟨(walk_of_joinName proper.single way).1, ⟨folder, there⟩, usable⟩

theorem Leads.of_writeFile {name : String} (proper : ProperName name) {bytes : ByteArray}
    (written : d.writeFile (p.joinName name) bytes = .ok made) : d.Leads p := by
  obtain ⟨above, folder, last, found, -⟩ := writeFile_eq_ok written
  exact .of_spot proper found

theorem writeFile_accepts {bytes : ByteArray} (written : d.writeFile p bytes = .ok made) :
    d.refuse? p = none := by
  obtain ⟨above, folder, name, found, -⟩ := writeFile_eq_ok written
  exact (locate_iff.mp (spot_way found).1).1

theorem place_withoutLastSlash (d : Disk) (p : Path) : d.place p.withoutLastSlash = d.place p := by
  rw [Disk.place, Disk.place, Path.parts_withoutLastSlash, Path.isAbsolute_withoutLastSlash]

theorem createFolder_leads (created : d.createFolder p = .ok made) :
    made.Leads p ∧ made.refuse? p.withoutLastSlash = none := by
  have keeps := (createFolder_adds created).keeps
  obtain ⟨above, folder, name, found, -, rfl⟩ := createFolder_eq_ok created
  obtain ⟨located, inside, short⟩ := spot_way found
  obtain ⟨accepted, way, -⟩ := locate_iff.mp located
  obtain ⟨there, usable⟩ := folderIn_iff.mp inside
  have place := locate_eq_ok located
  refine ⟨?_, accepted⟩
  refine Leads.congr (p := p.withoutLastSlash) ⟨?_, ?_, ?_⟩ ?_ ?_
  · rw [place] at way
    exact walk_mono way keeps
  · show Tree.HasFolder _ (d.place p.withoutLastSlash)
    rw [← place]
    refine ⟨.empty, ?_⟩
    rw [Tree.at?_append (Tree.at?_change there _), Tree.at?, Tree.get?_set_self]
    rfl
  · show ∀ other ∈ d.place p.withoutLastSlash, _
    rw [← place]
    intro other member
    rw [List.mem_append, List.mem_singleton] at member
    cases member with
    | inl member => exact usable other member
    | inr same => exact same ▸ short
  · exact (Path.isAbsolute_withoutLastSlash p).symm
  · exact (Path.parts_withoutLastSlash p).symm

theorem text_ne_empty (accepted : d.refuse? p = none) : p.text ≠ "" := by
  intro empty
  simp [refuse?, empty] at accepted

theorem refuse?_front {rest : String} (longer : q.text = p.text ++ rest) (nonempty : p.text ≠ "")
    (accepted : d.refuse? q = none) : d.refuse? p = none := by
  unfold refuse? at accepted ⊢
  split_ifs at accepted with empty unprintable short
  rw [longer, String.toList_append, List.contains_append] at unprintable
  rw [longer, String.utf8ByteSize_append] at short
  rw [if_neg nonempty, if_neg (fun inside => unprintable (by rw [inside, Bool.true_or])),
    if_neg (fun tooLong => short (by omega))]

theorem refuse?_withoutLastSlash (accepted : d.refuse? p = none) :
    d.refuse? p.withoutLastSlash = none := by
  obtain ⟨slashes, -, same | nonempty, text⟩ := Path.text_withoutLastSlash p
  · rwa [same]
  · have longer : p.text = p.withoutLastSlash.text ++ String.ofList slashes := by
      have same := congrArg Path.text text
      rwa [String.ofList_append, String.ofList_toList] at same
    exact refuse?_front longer nonempty accepted

theorem isFolder_of_entry {name : String} (proper : ProperName name) (nonempty : p.text ≠ "")
    (found : d.entry (p.joinName name) = .ok entry) : d.isFolder p = true := by
  unfold Disk.entry at found
  rw [except_bind_eq_ok] at found
  obtain ⟨place, located, inside⟩ := found
  obtain ⟨accepted, way, -⟩ := locate_iff.mp located
  obtain ⟨there, usable⟩ := entryIn_iff.mp inside
  obtain rfl := locate_eq_ok located
  rw [place_joinName d p proper] at there usable
  obtain ⟨rest, longer⟩ := Path.text_join (p := p) (Path.isRelative_of_proper proper)
  refine isFolder_iff.mpr ⟨refuse?_front longer nonempty accepted, ?_, ?_, ?_⟩
  · exact (walk_of_joinName proper.single way).1
  · exact Tree.hasFolder_of_at? (by rw [there]; exact Option.some_ne_none _)
  · exact fun other member => usable other (List.mem_append_left _ member)

theorem refuse?_join {q' : Path} (relative : q.isAbsolute = false) (relative' : q'.isAbsolute = false)
    (nonempty : q'.text ≠ "") (printable : '\x00' ∉ q'.text.toList)
    (shorter : q'.text.utf8ByteSize ≤ q.text.utf8ByteSize) (accepted : d.refuse? (p.join q) = none) :
    d.refuse? (p.join q') = none := by
  obtain ⟨front, text, text'⟩ : ∃ front, (p.join q).text = front ++ q.text ∧
      (p.join q').text = front ++ q'.text := by
    unfold Path.join
    simp only [relative, relative', Bool.false_eq_true, if_false]
    split_ifs with empty ends
    · exact ⟨"", by simp, by simp⟩
    · exact ⟨p.text, rfl, rfl⟩
    · exact ⟨p.text ++ "/", rfl, rfl⟩
  unfold refuse? at accepted ⊢
  rw [text, String.toList_append, List.contains_append, String.utf8ByteSize_append] at accepted
  rw [text', String.toList_append, List.contains_append, String.utf8ByteSize_append]
  split_ifs at accepted with empty unprintable long
  rw [if_neg (by simp [nonempty]), if_neg, if_neg (by omega)]
  rw [Bool.or_eq_true, not_or] at unprintable ⊢
  exact ⟨unprintable.1, by simpa using printable⟩

theorem Leads.locate_joinName {name : String} (leads : d.Leads p) (proper : ProperName name)
    (accepted : d.refuse? (p.joinName name) = none) :
    d.locate (p.joinName name) = .ok (d.place p ++ [name]) := by
  have ends := Path.endsInSlash_joinName (p := p) proper.nonempty proper.single
  have located : d.locate (p.joinName name) = .ok (d.place (p.joinName name)) :=
    locate_iff.mpr ⟨accepted, leads.walk_joinName proper.single, by simp [ends]⟩
  rwa [place_joinName d p proper] at located

theorem isFile_joinName {name : String} {data : FileData} (leads : d.Leads p)
    (proper : ProperName name) (accepted : d.refuse? (p.joinName name) = none)
    (short : name.utf8ByteSize ≤ nameLimit) (found : d.files (d.place p ++ [name]) = some data) :
    d.isFile (p.joinName name) = true := by
  have inside : entryIn d.root (d.place p ++ [name]) = .ok (.file data) := by
    refine entryIn_iff.mpr ⟨Tree.fileAt?_eq_some.mp found, ?_⟩
    intro other member
    rw [List.mem_append, List.mem_singleton] at member
    cases member with
    | inl member => exact leads.usable other member
    | inr same => exact same ▸ short
  have entry : d.entry (p.joinName name) = .ok (.file data) := by
    unfold Disk.entry
    rw [leads.locate_joinName proper accepted]
    exact inside
  rw [isFile, entry]

theorem locate_mono (located : d.locate p = .ok place) (same : made = { d with root := made.root })
    (keeps : d.KeepsFolders made) : made.locate p = .ok place := by
  obtain ⟨accepted, way, ends⟩ := locate_iff.mp located
  have here : made.here = d.here := by rw [same]
  refine locate_iff.mpr ⟨?_, ?_, ?_⟩
  · rw [same]
    exact accepted
  · rw [here]
    exact walk_mono way keeps
  · intro slash
    obtain ⟨content, inside⟩ := ends slash
    obtain ⟨there, usable⟩ := folderIn_iff.mp inside
    obtain ⟨content', there'⟩ := keeps _ ⟨content, there⟩
    exact ⟨content', folderIn_iff.mpr ⟨there', usable⟩⟩

theorem entry_mono {entry : Entry} (found : d.entry p = .ok entry)
    (same : made = { d with root := made.root }) (keeps : d.KeepsFolders made)
    (still : made.root.at? (d.place p) = d.root.at? (d.place p)) : made.entry p = .ok entry := by
  obtain ⟨located, there, usable⟩ := entry_iff.mp found
  have place : made.place p = d.place p := by
    rw [same]
    rfl
  rw [entry_iff, place, still]
  exact ⟨locate_mono located same keeps, there, usable⟩

theorem readFile_mono (same : made = { d with root := made.root }) (keeps : d.KeepsFolders made)
    {data : FileData} (files : made.files (d.place p) = d.files (d.place p))
    (read : d.readFile p = .ok data) : made.readFile p = .ok data := by
  have found := readFile_iff_entry.mp read
  rw [readFile_eq_ok read] at files
  refine readFile_iff_entry.mpr (entry_mono found same keeps ?_)
  rw [entry_eq_ok found]
  exact Tree.fileAt?_eq_some.mp files

theorem readText_mono (same : made = { d with root := made.root }) (keeps : d.KeepsFolders made)
    {text : String} (files : made.files = d.files) (read : d.readText p = .ok text) :
    made.readText p = .ok text := by
  unfold readText at read ⊢
  rw [except_bind_eq_ok] at read
  obtain ⟨data, found, decoded⟩ := read
  rw [readFile_mono same keeps (congrFun files _) found]
  exact decoded

theorem isFile_of_readFile {data : FileData} (read : d.readFile p = .ok data) : d.isFile p = true :=
  isFile_iff_entry.mpr ⟨data, readFile_iff_entry.mp read⟩

theorem isFile_of_readText {text : String} (read : d.readText p = .ok text) : d.isFile p = true := by
  unfold readText at read
  rw [except_bind_eq_ok] at read
  obtain ⟨data, found, -⟩ := read
  exact isFile_of_readFile found

theorem isFile_of_copyFile {source target : Path} (copied : d.copyFile source target = .ok made) :
    d.isFile source = true := by
  obtain ⟨data, _, _, _, found, -⟩ := copyFile_eq_ok copied
  exact isFile_iff_entry.mpr ⟨data, found⟩

theorem readFile_writeFile (sound : d.Sound) {bytes : ByteArray}
    (written : d.writeFile p bytes = .ok made) :
    made.readFile p = .ok (.rewritten (d.files (d.place p)) bytes) := by
  have becomes := writeFile_becomes sound written
  have keeps := (writeFile_sameFolders written).keeps
  have there : made.files (d.place p) = some (.rewritten (d.files (d.place p)) bytes) := by
    rw [becomes.files, Function.update_self]
  obtain ⟨above, folder, name, found, -⟩ := writeFile_eq_ok written
  obtain ⟨located, inside, short⟩ := spot_way found
  obtain ⟨-, usable⟩ := folderIn_iff.mp inside
  have place : d.place p = above ++ [name] := (spot_eq_ok found).1
  refine readFile_iff_entry.mpr (entry_iff.mpr ?_)
  rw [becomes.place, place]
  refine ⟨locate_mono located becomes.same keeps, ?_, ?_⟩
  · rw [← place]
    exact Tree.fileAt?_eq_some.mp there
  · intro other member
    rw [List.mem_append, List.mem_singleton] at member
    exact member.elim (usable other) fun same => same ▸ short

theorem readText_writeFile (sound : d.Sound) {text : String}
    (written : d.writeFile p text.toUTF8 = .ok made) : made.readText p = .ok text := by
  rw [readText, readFile_writeFile sound written]
  simp only [bind, Except.bind, FileData.rewritten, fromUTF8?_written]

theorem Leads.spot_joinName {name : String} (leads : d.Leads p) (proper : ProperName name)
    (accepted : d.refuse? (p.joinName name) = none) (short : name.utf8ByteSize ≤ nameLimit) :
    ∃ folder, d.root.at? (d.place p) = some (.folder folder) ∧
      d.spot (p.joinName name) = .ok (d.place p, folder, name) := by
  obtain ⟨folder, there⟩ := leads.folder
  have inside : folderIn d.root (d.place p) = .ok folder := folderIn_iff.mpr ⟨there, leads.usable⟩
  refine ⟨folder, there, ?_⟩
  simp only [spot, leads.locate_joinName proper accepted, bind, Except.bind,
    List.getLast?_concat, List.dropLast_concat, inside, Nat.not_lt.mpr short, if_false]

theorem writeFile_new {name : String} (leads : d.Leads p) (proper : ProperName name)
    (accepted : d.refuse? (p.joinName name) = none) (short : name.utf8ByteSize ≤ nameLimit)
    (absent : d.root.at? (d.place p ++ [name]) = none) (bytes : ByteArray) :
    d.writeFile (p.joinName name) bytes = .ok { d with
      root := d.root.change (·.set name (.file { bytes, executable := false })) (d.place p) } := by
  obtain ⟨folder, there, found⟩ := leads.spot_joinName proper accepted short
  have free : folder.get? name = none := by
    rwa [Tree.at?_append there, Tree.at?_singleton] at absent
  simp only [writeFile, found, bind, Except.bind, free, writeFile.put]

theorem writeFile_ok_iff {name : String} (proper : ProperName name) (bytes : ByteArray) :
    (∃ made, d.writeFile (p.joinName name) bytes = .ok made) ↔
      d.refuse? (p.joinName name) = none ∧ d.Leads p ∧ name.utf8ByteSize ≤ nameLimit ∧
        ¬ d.root.HasFolder (d.place p ++ [name]) := by
  have hasFolder {folder : Tree} (there : d.root.at? (d.place p) = some (.folder folder)) :
      d.root.HasFolder (d.place p ++ [name]) ↔ ∃ content, folder.get? name = some (.folder content) := by
    simp only [Tree.HasFolder, Tree.at?_append there, Tree.at?_singleton]
  constructor
  · rintro ⟨made, written⟩
    obtain ⟨above, folder, last, found, noFolder, -⟩ := writeFile_eq_ok written
    have leads := Leads.of_spot proper found
    obtain ⟨located, -, short⟩ := spot_way found
    obtain ⟨place, there⟩ := spot_eq_ok found
    rw [place_joinName d p proper] at place
    obtain ⟨rfl, same⟩ := List.append_inj' place rfl
    obtain rfl := List.head_eq_of_cons_eq same
    refine ⟨(locate_iff.mp located).1, leads, short, ?_⟩
    intro blocked
    obtain ⟨content, inside⟩ := (hasFolder there).mp blocked
    exact noFolder content inside
  · rintro ⟨accepted, leads, short, free⟩
    obtain ⟨folder, there, found⟩ := leads.spot_joinName proper accepted short
    rw [hasFolder there] at free
    simp only [writeFile, found, bind, Except.bind]
    cases inside : folder.get? name with
    | none => exact ⟨_, rfl⟩
    | some entry =>
        cases entry with
        | folder content => exact absurd ⟨content, inside⟩ free
        | file data => exact ⟨_, rfl⟩

theorem createChain_leads {paths : List Path} (chain : d.createChain (p :: paths) = (made, .ok ())) :
    p.text = "" ∨ made.Leads p ∧ made.refuse? p.withoutLastSlash = none := by
  have there (folder : made.isFolder p = true) :
      made.Leads p ∧ made.refuse? p.withoutLastSlash = none := by
    obtain ⟨accepted, leads⟩ := isFolder_iff.mp folder
    exact ⟨leads, refuse?_withoutLastSlash accepted⟩
  rw [createChain] at chain
  split at chain
  · next empty => exact .inl empty
  · right
    split at chain
    · next created =>
        cases chain
        exact createFolder_leads created
    · split at chain
      · cases chain
      · split at chain
        · next created =>
            cases chain
            exact createFolder_leads created
        · split at chain
          · next folder =>
              cases chain
              exact there folder
          · cases chain
    · split at chain
      · next folder =>
          cases chain
          exact there folder
      · cases chain

theorem createFolders_leads (created : d.createFolders p = (made, .ok ())) :
    p.text = "" ∨ made.Leads p ∧ made.refuse? p.withoutLastSlash = none := by
  unfold createFolders at created
  split at created
  · next first =>
      cases created
      exact .inr (createFolder_leads first)
  · exact createChain_leads created
  · split at created
    · next folder =>
        cases created
        obtain ⟨accepted, leads⟩ := isFolder_iff.mp folder
        exact .inr ⟨leads, refuse?_withoutLastSlash accepted⟩
    · cases created

def Holds (d : Disk) (place : Location) : Prop := d.root.HasFolder place ∨ d.files place ≠ none

theorem holds_of_files (there : d.files place ≠ none) {above : Location} (below : above <+: place) :
    d.Holds above := by
  obtain ⟨rest, rfl⟩ := below
  cases rest with
  | nil => exact .inr (by rwa [List.append_nil] at there)
  | cons name rest => exact .inl (Tree.hasFolder_of_file there)

theorem Holds.at? (there : d.Holds place) : d.root.at? place ≠ none := by
  obtain ⟨content, there⟩ | there := there
  · simp [there]
  · obtain ⟨data, found⟩ := Option.ne_none_iff_exists'.mp there
    rw [files, Tree.fileAt?_eq_some] at found
    simp [found]

theorem createFolder_ne_ok (there : d.Holds (d.place p)) : d.createFolder p ≠ .ok made := by
  intro created
  obtain ⟨above, folder, name, found, absent, -⟩ := createFolder_eq_ok created
  obtain ⟨place, inside⟩ := spot_eq_ok found
  rw [place_withoutLastSlash] at place
  apply there.at?
  rw [place, Tree.at?_append inside, Tree.at?, absent]

theorem createChain_isFolder (sound : d.Sound) {paths : List Path} (there : d.Holds (d.place p))
    (chain : d.createChain (p :: paths) = (made, .ok ())) : p.text = "" ∨ made.isFolder p = true := by
  have becomes := createChain_becomes sound paths
  have keeps := d.createChain_keepsFolders paths
  rw [createChain] at chain
  split at chain
  · next empty => exact .inl empty
  · split at chain
    · next created => exact absurd created (createFolder_ne_ok there)
    · split at chain
      · cases chain
      · next between above =>
          rw [above] at becomes keeps
          have stillThere : between.Holds (between.place p) := by
            rw [becomes.place]
            exact there.imp (keeps _) (by rw [becomes.files]; exact id)
          split at chain
          · next created => exact absurd created (createFolder_ne_ok stillThere)
          · split at chain
            · next folder =>
                cases chain
                exact .inr folder
            · cases chain
    · split at chain
      · next folder =>
          cases chain
          exact .inr folder
      · cases chain

/-- Where something is already, making folders succeeds only if a usable path leads to a folder. -/
theorem createFolders_isFolder (sound : d.Sound) (there : d.Holds (d.place p))
    (created : d.createFolders p = (made, .ok ())) : p.text = "" ∨ made.isFolder p = true := by
  unfold createFolders at created
  split at created
  · next first => exact absurd first (createFolder_ne_ok there)
  · exact createChain_isFolder sound there created
  · split at created
    · next folder =>
        cases created
        exact .inr folder
    · cases created

end Disk
end Cookbook
